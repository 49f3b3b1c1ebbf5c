import Soika.ConfigSync.TeamPruning

/-! # What an apply leads to

The stages of the transaction are followed one after the other. An accepted plan goes through: it
fails only where the database does.
-/

namespace Soika

open Table

def TeamView.unorphan (v : TeamView) : TeamView := { v with row := v.row.unorphan }

def ProjectView.unorphan (v : ProjectView) : ProjectView := { v with row := v.row.unorphan }

theorem TeamTables.view_unorphanTeams (T : TeamTables) (name : String) :
    T.unorphanTeams.view name = (T.view name).map TeamView.unorphan := by
  have hnamed : T.unorphanTeams.teamNamed name = (T.teamNamed name).map TeamRow.unorphan :=
    lookup_map (f := TeamRow.unorphan) (fun _ => rfl) name T.teams
  rw [TeamTables.view, hnamed, TeamTables.view, Option.map_map, Option.map_map]
  rfl

theorem ProjectTables.view_unorphanProjects (T : ProjectTables) (slug : String) :
    T.unorphanProjects.view slug = (T.view slug).map ProjectView.unorphan := by
  have hslugged : T.unorphanProjects.projectSlugged slug =
      (T.projectSlugged slug).map ProjectRow.unorphan :=
    lookup_map (f := ProjectRow.unorphan) (fun _ => rfl) slug T.projects
  rw [ProjectTables.view, hslugged, ProjectTables.view, Option.map_map, Option.map_map]
  rfl

namespace ConfigSync

open Session

variable {P : Platform} {R : Error → Prop} {s s' : Session} {write : WritePolicy}
  {file : ConfigFile} {settings : ManagementSettings} {retention : ℤ} {now syncedAt : Timestamp}

structure TeamsWritten (P : Platform) (file : ConfigFile) (now : Timestamp) (s s' : Session) :
    Prop where
  sound : s'.Sound
  only : s.OnlyTeams s'
  ui : file.teams = none → ∀ name, teamViews s' name = (teamViews s name).map TeamView.unorphan
  declared : ∀ t ∈ file.teamList, TeamSynced P s.db.toUserTables t now (teamViews s t.name)
    (teamViews s' t.name)
  others : ∀ ts, file.teams = some ts → ∀ name, UndeclaredTeam ts name →
    teamViews s' name = teamViews s name
  actions : actionsOf s' = actionsOf s ++
    file.teamList.flatMap fun t => teamEntries P t (teamViews s t.name)

theorem writeTeams_yields {α : Type} (hs : s.Sound) (hfile : file.Accepted P settings)
    {rest : SyncTx α} {Q : α → Session → Prop}
    (hrest : ∀ s', TeamsWritten P file now s s' → Yields R rest Q s') :
    Yields R (do
      Transaction.when (settings.teamSource = .ui) (updateTeams TeamTables.unorphanTeams)
      Transaction.each (fun team => syncTeam P team now) file.teamList
      rest) Q s := by
  cases hteams : file.teams with
  | none =>
    have hlist : file.teamList = [] := by rw [ConfigFile.teamList, hteams, Option.getD_none]
    rw [hlist]
    refine .seq (.when (fun _ => yields_updateTeams (.seq (.ret (hrest _ ?_)))) fun hui => ?_)
    · exact {
        sound := hs.withTeams hs.db.teams.unorphanTeams fun id => by
          constructor
          · rintro ⟨t, ht, rfl⟩
            obtain ⟨t₀, ht₀, rfl⟩ := List.mem_map.mp ht
            exact ⟨t₀, ht₀, rfl⟩
          · exact TeamTables.hasTeam_map (f := TeamRow.unorphan) fun _ => rfl
        only := ⟨rfl, rfl, rfl⟩
        ui := fun _ => s.db.toTeamTables.view_unorphanTeams
        declared := by
          rw [hlist]
          exact nofun
        others := by
          rw [hteams]
          exact nofun
        actions := by
          rw [hlist]
          exact (List.append_nil _).symm }
    · exact absurd (hfile.teamsUi.mp hteams) hui
  | some ts =>
    have hlist : file.teamList = ts := by rw [ConfigFile.teamList, hteams, Option.getD_some]
    refine .seq (.when (fun hui => ?_) fun _ => ?_)
    · rw [hfile.teamsUi.mpr hui] at hteams
      cases hteams
    · refine .bind (syncTeams_yields hs now hfile.names hfile.emails hfile.groups) fun _ s' h => ?_
      apply hrest
      exact {
        sound := h.1.1
        only := h.1.2
        ui := by
          rw [hteams]
          exact nofun
        declared := h.2.post
        others := fun ts' hts' name hname => by
          obtain rfl := Option.some.inj (hteams.symm.trans hts')
          rw [hlist] at h
          exact h.2.others name hname
        actions := h.2.log }

structure ProjectsWritten (file : ConfigFile) (settings : ManagementSettings) (retention : ℤ)
    (now : Timestamp) (s s' : Session) : Prop where
  frame : ProjectFrame (fun id => ∃ ps, file.projects = some ps ∧
    GoneProject ps settings.projectOrphanPolicy s.db id) s s'
  ui : file.projects = none →
    ∀ slug, projectViews s' slug = (projectViews s slug).map ProjectView.unorphan
  declared : ∀ p ∈ file.projectList, ProjectSynced (fieldsIn s.db.toTeamTables p retention) p.slug
    now (projectViews s p.slug) (projectViews s' p.slug)
  others : ∀ ps, file.projects = some ps → ∀ slug, Undeclared ps slug →
    projectViews s' slug = prunedProject settings.projectOrphanPolicy now (projectViews s slug)
  actions : ∃ rows : List ProjectRow,
    rows.Perm (file.projects.elim [] fun ps => undeclaredProjects ps s.db) ∧
      actionsOf s' = actionsOf s ++
        file.projectList.flatMap (fun p => projectEntries (fieldsIn s.db.toTeamTables p retention)
          p.slug (projectViews s p.slug)) ++
        rows.flatMap fun row =>
          prunedEntries "project" row.slug settings.projectOrphanPolicy row.orphanedAt.isSome

theorem writeProjects_yields {α : Type} (hs : s.Sound) (hfile : file.Accepted P settings)
    (hteams : ∀ p ∈ file.projectList, ∃ team, s.db.teamNamed p.team = some team)
    (hclash : R (.db P.uniqueViolation)) {rest : SyncTx α} {Q : α → Session → Prop}
    (hrest : ∀ s', ProjectsWritten file settings retention now s s' → Yields R rest Q s') :
    Yields R (do
      Transaction.when (settings.projectSource = .ui)
        (updateProjects ProjectTables.unorphanProjects)
      file.projects.elim (pure ()) fun projects =>
        syncProjects P write projects settings.projectOrphanPolicy retention now
      rest) Q s := by
  cases hprojects : file.projects with
  | none =>
    have hlist : file.projectList = [] := by
      rw [ConfigFile.projectList, hprojects, Option.getD_none]
    refine .seq (.when (fun _ => yields_updateProjects (.seq (.ret (hrest _ ?_)))) fun hui => ?_)
    · have hframe : s.OnlyProjects (s.withProjects s.db.unorphanProjects) := ⟨rfl, rfl, rfl⟩
      have hrow : ∀ p ∈ s.db.unorphanProjects.projects, ∃ q ∈ s.db.projects,
          q.teamId = p.teamId ∧ q.id = p.id := by
        intro p hp
        obtain ⟨q, hq, rfl⟩ := List.mem_map.mp hp
        exact ⟨q, hq, rfl, rfl⟩
      exact {
        frame := by
          refine ⟨hs.withProjects hs.db.projects.unorphanProjects (fun p hp => ?_)
            (fun p hp => ?_), hframe, .of_eq rfl rfl⟩
          · obtain ⟨q, hq, hteam, -⟩ := hrow p hp
            exact hteam ▸ hs.db.projectTeam q hq
          · obtain ⟨q, hq, -, hid⟩ := hrow p hp
            exact hid ▸ hs.db.projectFresh q hq
        ui := fun _ => s.db.toProjectTables.view_unorphanProjects
        declared := by
          rw [hlist]
          exact nofun
        others := by
          rw [hprojects]
          exact nofun
        actions := by
          refine ⟨[], ?_, ?_⟩
          · rw [hprojects, Option.elim_none]
          · rw [hlist]
            simp [actionsOf, Session.withProjects] }
    · exact absurd (hfile.projectsUi.mp hprojects) hui
  | some ps =>
    have hlist : file.projectList = ps := by
      rw [ConfigFile.projectList, hprojects, Option.getD_some]
    refine .seq (.when (fun hui => ?_) fun _ => ?_)
    · rw [hfile.projectsUi.mpr hui] at hprojects
      cases hprojects
    · have hslugs := hfile.slugs
      have hintervals := hfile.intervals
      rw [hlist] at hslugs hintervals hteams
      refine .bind (syncProjects_yields hs hslugs hteams hintervals hclash) fun _ s' h => ?_
      apply hrest
      exact {
        frame := h.frame.mono fun id hid => ⟨ps, hprojects, hid⟩
        ui := by
          rw [hprojects]
          exact nofun
        declared := by
          rw [hlist]
          exact h.declared
        others := fun ps' hps' slug hslug => by
          obtain rfl := Option.some.inj (hprojects.symm.trans hps')
          exact h.others slug hslug
        actions := by
          rw [hprojects, hlist]
          exact h.actions }

theorem ProjectSynced.teamId {c : ProjectFields} {slug : String} {old : Option ProjectView}
    {v : ProjectView} (h : ProjectSynced c slug now old (some v)) : v.row.teamId = c.teamId := by
  cases old with
  | none =>
    obtain ⟨id, shortId, dsn, hv⟩ := h
    cases hv
    rfl
  | some w =>
    cases h
    unfold declaredRow
    by_cases haction : projectAction c w.row ≠ .unchanged
    · rw [if_pos haction]
      rfl
    · rw [if_neg haction]
      have hsame : ProjectFields.of w.row = c := by
        by_contra hne
        apply haction
        unfold projectAction planPresent
        simp only [hne, ne_eq, not_false_eq_true, decide_true, not_true, if_false, if_true]
        split <;> exact nofun
      exact congrArg ProjectFields.teamId hsame

theorem mem_projectTeams {d : Directory} {p : ProjectRow} (hp : p ∈ d.projects) {t : TeamRow}
    (ht : t ∈ d.teams) (heq : p.teamId = t.id) : (p.slug, t.name) ∈ d.projectTeams := by
  refine List.mem_flatMap.mpr ⟨p, hp, List.mem_map.mpr ⟨t, ?_, rfl⟩⟩
  exact List.mem_filter.mpr ⟨ht, decide_eq_true heq.symm⟩

/-- A project that the file does not move or delete keeps its team. -/
theorem finalProjectTeam_undeclared {slug team : String}
    (h : ∀ ps, file.projects = some ps → Undeclared ps slug ∧ settings.projectOrphanPolicy ≠ .delete) :
    finalProjectTeam file settings slug team = some team := by
  unfold finalProjectTeam
  cases hprojects : file.projects with
  | none => rfl
  | some ps =>
    obtain ⟨hundeclared, hpolicy⟩ := h ps hprojects
    have hnone : (ps.find? fun p => p.slug = slug) = none := by
      rw [List.find?_eq_none]
      exact fun p hp heq => hundeclared p hp (of_decide_eq_true heq)
    simp only [hnone, if_neg hpolicy]

/-- A project that is there after the writes is declared, or was there before in the same team. -/
theorem ProjectsWritten.origin (h : ProjectsWritten file settings retention now s s')
    {p : ProjectRow} (hp : p ∈ s'.db.projects) :
    (∃ q ∈ file.projectList, q.slug = p.slug ∧
        p.teamId = (fieldsIn s.db.toTeamTables q retention).teamId) ∨
      (∀ ps, file.projects = some ps → Undeclared ps p.slug ∧
          settings.projectOrphanPolicy ≠ .delete) ∧
        ∃ old ∈ s.db.projects, old.slug = p.slug ∧ old.teamId = p.teamId := by
  have hview : projectViews s' p.slug = some (s'.db.toProjectTables.viewOf p) :=
    view_of_slugged ((mem_projects_iff h.frame.sound).mp hp)
  have horigin : ∀ {f : ProjectView → ProjectView}, (∀ v, (f v).row.teamId = v.row.teamId) →
      (projectViews s p.slug).map f = some (s'.db.toProjectTables.viewOf p) →
      ∃ old ∈ s.db.projects, old.slug = p.slug ∧ old.teamId = p.teamId := by
    intro f hf hmap
    obtain ⟨v, hv, heq⟩ := Option.map_eq_some_iff.mp hmap
    obtain ⟨hmem, hslug⟩ := ProjectTables.projectSlugged_mem (slug_mem_view hv).1
    refine ⟨v.row, hmem, hslug, ?_⟩
    rw [← hf v, heq]
    rfl
  cases hprojects : file.projects with
  | none =>
    have hold := horigin (f := ProjectView.unorphan) (fun _ => rfl) (by rw [← h.ui hprojects, hview])
    refine .inr ⟨?_, hold⟩
    intro ps hps
    cases hps
  | some ps =>
    have hlist : file.projectList = ps := by
      rw [ConfigFile.projectList, hprojects, Option.getD_some]
    by_cases hundeclared : Undeclared ps p.slug
    · have hpruned := h.others ps hprojects p.slug hundeclared
      rw [hview] at hpruned
      cases hpolicy : settings.projectOrphanPolicy with
      | delete =>
        rw [hpolicy] at hpruned
        cases hpruned
      | readonly =>
        rw [hpolicy, prunedProject] at hpruned
        refine .inr ⟨?_, horigin (fun v => ?_) hpruned.symm⟩
        · rintro ps' hps'
          obtain rfl := Option.some.inj hps'
          constructor
          · exact hundeclared
          · intro hdelete
            cases hdelete
        · simp only [orphanedProject]
          split <;> rfl
    · simp only [Undeclared, not_forall, not_not] at hundeclared
      obtain ⟨q, hq, hslug⟩ := hundeclared
      refine .inl ⟨q, hlist ▸ hq, hslug, ?_⟩
      have hsynced := h.declared q (hlist ▸ hq)
      rw [hslug, hview] at hsynced
      exact hsynced.teamId

theorem TeamsWritten.named (h : TeamsWritten P file now s s') {t : TeamConfig}
    (ht : t ∈ file.teamList) : ∃ row, s'.db.teamNamed t.name = some row := by
  obtain ⟨id, hview⟩ := h.declared t ht
  obtain ⟨row, hrow, -⟩ := Option.map_eq_some_iff.mp hview
  exact ⟨row, hrow⟩

abbrev PlanAccepts (file : ConfigFile) (settings : ManagementSettings) (d : Directory) : Prop :=
  PlanHolds file settings (d.teams.map TeamRow.name) d.projectTeams

/-- Every team that a declared project refers to is there once the teams are written. -/
theorem references_named (hs : s.Sound) (hplan : PlanAccepts file settings s.db)
    (h : TeamsWritten P file now s s') :
    ∀ p ∈ file.projectList, ∃ team, s'.db.teamNamed p.team = some team := by
  intro p hp
  have href := hplan.references p hp
  cases hteams : file.teams with
  | some ts =>
    simp only [hteams] at href
    obtain ⟨t, ht, hname⟩ := href
    have hmem : t ∈ file.teamList := by rwa [ConfigFile.teamList, hteams, Option.getD_some]
    exact hname ▸ h.named hmem
  | none =>
    simp only [hteams, List.mem_map] at href
    obtain ⟨row, hrow, hname⟩ := href
    have hbefore : teamViews s p.team = some (s.db.toTeamTables.viewOf row) :=
      hname ▸ view_of_named ((mem_teams_iff hs).mp hrow)
    have hview := h.ui hteams p.team
    rw [hbefore, Option.map_some] at hview
    obtain ⟨r, hr, -⟩ := Option.map_eq_some_iff.mp hview
    exact ⟨r, hr⟩

theorem unowned_of_plan {s₁ s₂ : Session} (hs : s.Sound) (hplan : PlanAccepts file settings s.db)
    (ht : TeamsWritten P file now s s₁) (hp : ProjectsWritten file settings retention now s₁ s₂)
    {ts : List TeamConfig} (hts : file.teams = some ts) :
    Unowned ts settings.teamOrphanPolicy s₂.db := by
  intro hpolicy row hrow hundeclared p hpmem heq
  have hsame : s₂.db.teams = s₁.db.teams := congrArg TeamTables.teams hp.frame.only.teams
  have hrow₁ : s₁.db.teamNamed row.name = some row := (mem_teams_iff ht.sound).mp (hsame ▸ hrow)
  have hrow₀ : s.db.teamNamed row.name = some row :=
    (named_congr (ht.others ts hts row.name hundeclared)).symm.trans hrow₁
  rcases hp.origin hpmem with ⟨q, hq, -, hteam⟩ | ⟨hstays, old, hold, hslug, hteam⟩
  · have href := hplan.references q hq
    simp only [hts] at href
    obtain ⟨t, htmem, hname⟩ := href
    obtain ⟨r, hr⟩ := references_named hs hplan ht q hq
    have hid : row.id = r.id := by
      rw [← heq, hteam, fieldsIn, hr]
      rfl
    exact ht.sound.db.teams.id_ne hrow₁ hr (fun h => hundeclared t htmem (hname.trans h.symm)) hid
  · have hold₀ : old ∈ s.db.projects := by
      have hprojects : s₁.db.projects = s.db.projects :=
        congrArg ProjectTables.projects ht.only.projects
      exact hprojects ▸ hold
    have hmem := mem_projectTeams hold₀ ((mem_teams_iff hs).mpr hrow₀) (hteam.trans heq)
    have hname : row.name ∈ s.db.teams.map TeamRow.name :=
      List.mem_map_of_mem ((mem_teams_iff hs).mpr hrow₀)
    apply hplan.ownership ts hts hpolicy row.name hname hundeclared _ hmem
    exact finalProjectTeam_undeclared fun ps hps => hslug ▸ hstays ps hps

end ConfigSync

end Soika
