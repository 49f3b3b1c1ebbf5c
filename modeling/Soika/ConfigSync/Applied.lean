import Soika.ConfigSync.Outcome
import Soika.ConfigSync.Reconciliation

/-! # The whole apply

An apply either leads to the state that the file describes, or it fails and changes nothing. Once
the plan is accepted only the database can fail it.
-/

namespace Soika

open Table

namespace ConfigSync

open Session

variable {P : Platform} {R : Error → Prop} {s s' : Session} {write : WritePolicy}
  {file : ConfigFile} {settings : ManagementSettings} {retention : ℤ} {now syncedAt : Timestamp}
  {d d' : Directory} {report : SyncReport}

/-- What an apply of the file leads to. -/
structure Applied (P : Platform) (file : ConfigFile) (settings : ManagementSettings) (retention : ℤ)
    (now : Timestamp) (d d' : Directory) (report : SyncReport) : Prop where
  consistent : d'.Consistent
  users : d'.toUserTables = d.toUserTables
  uiTeams : file.teams = none →
    ∀ name, d'.toTeamTables.view name = (d.toTeamTables.view name).map TeamView.unorphan
  declaredTeams : ∀ t ∈ file.teamList, TeamSynced P d.toUserTables t now
    (d.toTeamTables.view t.name) (d'.toTeamTables.view t.name)
  otherTeams : ∀ ts, file.teams = some ts → ∀ name, UndeclaredTeam ts name →
    d'.toTeamTables.view name =
      prunedTeam settings.teamOrphanPolicy now (d.toTeamTables.view name)
  uiProjects : file.projects = none →
    ∀ slug, d'.toProjectTables.view slug = (d.toProjectTables.view slug).map ProjectView.unorphan
  declaredProjects : ∀ p ∈ file.projectList, ProjectSynced (fieldsIn d'.toTeamTables p retention)
    p.slug now (d.toProjectTables.view p.slug) (d'.toProjectTables.view p.slug)
  otherProjects : ∀ ps, file.projects = some ps → ∀ slug, Undeclared ps slug →
    d'.toProjectTables.view slug =
      prunedProject settings.projectOrphanPolicy now (d.toProjectTables.view slug)
  events : EventsKept (fun id => ∃ ps, file.projects = some ps ∧
    GoneProject ps settings.projectOrphanPolicy d id) d.toProjectTables d'.toProjectTables
  counted : report.Counted
  actions : ∃ (projects : List ProjectRow) (teams : List TeamRow),
    projects.Perm (file.projects.elim [] fun ps => undeclaredProjects ps d) ∧
    teams.Perm (file.teams.elim [] fun ts => undeclaredTeams ts d) ∧
    report.actions =
      file.teamList.flatMap (fun t => teamEntries P t (d.toTeamTables.view t.name)) ++
      file.projectList.flatMap (fun p => projectEntries (fieldsIn d'.toTeamTables p retention)
        p.slug (d.toProjectTables.view p.slug)) ++
      projects.flatMap (fun row =>
        prunedEntries "project" row.slug settings.projectOrphanPolicy row.orphanedAt.isSome) ++
      teams.flatMap fun row =>
        prunedEntries "team" row.name settings.teamOrphanPolicy row.orphanedAt.isSome

/-- Only counts of the report differ that are not those of its actions. -/
structure Reports (s s' : Session) : Prop where
  db : s'.db = s.db
  actions : actionsOf s' = actionsOf s
  counted : s.report.Counted → s'.report.Counted

theorem Reports.refl (s : Session) : Reports s s := ⟨rfl, rfl, id⟩

theorem Reports.trans {s'' : Session} (h : Reports s s') (h' : Reports s' s'') : Reports s s'' :=
  ⟨h'.db.trans h.db, h'.actions.trans h.actions, fun hs => h'.counted (h.counted hs)⟩

theorem yields_setReport {f : SyncReport → SyncReport} {Q : Unit → Session → Prop}
    (h : Q () { s with report := f s.report }) : Yields R (setReport f) Q s :=
  .modify h

theorem populateReport_yields : Yields R (populateReport P) (fun _ s' => Reports s s') s := by
  refine .seq (yields_fetch (.seq (yields_setReport (.seq (yields_fetch (.seq (yields_setReport
    (.seq (yields_select fun rows _ => yields_setReport ?_)))))))))
  exact ⟨rfl, rfl, fun h => ⟨h.created, h.updated, h.unchanged, h.restored, h.orphaned, h.deleted⟩⟩

theorem TeamsPruned.reports {teams : List TeamConfig} {policy : OrphanPolicy} {t t' : Session}
    (h : TeamsPruned teams policy now s t) (hr : Reports t t') :
    TeamsPruned teams policy now s t' := by
  obtain ⟨db, report⟩ := t'
  obtain rfl : db = t.db := hr.db
  obtain ⟨rows, hrows, hactions⟩ := h.actions
  exact {
    sound := ⟨h.sound.db, hr.counted h.sound.report⟩
    only := ⟨h.only.projects, h.only.users, h.only.settings⟩
    declared := h.declared
    others := h.others
    actions := ⟨rows, hrows, hr.actions.trans hactions⟩ }

theorem pruneTeams_yields (hs : s.Sound) {teams : List TeamConfig} {policy : OrphanPolicy}
    (hunowned : Unowned teams policy s.db) :
    Yields R (pruneTeams P teams policy now) (fun _ s' => TeamsPruned teams policy now s s') s := by
  refine .seq (yields_select fun rows hrows => ?_)
  refine .bind (prunesTeams_yields hs hrows hunowned) fun _ t h => ?_
  refine .seq (yields_fetch (.seq (yields_setReport (.seq (yields_fetch (yields_setReport ?_))))))
  apply h.reports
  exact ⟨rfl, rfl, fun h => ⟨h.created, h.updated, h.unchanged, h.restored, h.orphaned, h.deleted⟩⟩

theorem saveNotifications_yields (hfile : file.Accepted P settings) {Q : Unit → Session → Prop}
    (h : ∀ n, Q () { s with db := { s.db with notificationSettings := n } }) :
    Yields R (saveNotifications P file settings) Q s := by
  unfold saveNotifications
  cases hn : file.notifications with
  | none => exact .ret (h s.db.notificationSettings)
  | some n =>
    dsimp only
    split
    · rename_i hyaml
      obtain ⟨n', hn', hvalid⟩ := hfile.notifications hyaml
      obtain rfl := Option.some.inj (hn.symm.trans hn')
      rw [hvalid]
      exact .seq (.ret (yields_update (h n)))
    · exact .ret (h s.db.notificationSettings)

theorem fieldsIn_congr {T T' : TeamTables} {p : ProjectConfig}
    (h : T'.teamNamed p.team = T.teamNamed p.team) :
    fieldsIn T' p retention = fieldsIn T p retention := by
  rw [fieldsIn, h, fieldsIn]

abbrev TeamsFinished (file : ConfigFile) (settings : ManagementSettings) (now : Timestamp)
    (s s' : Session) : Prop :=
  file.teams.elim (s' = s) fun ts => TeamsPruned ts settings.teamOrphanPolicy now s s'

theorem TeamsFinished.declared {s₁ s₂ s₃ : Session} (hplan : PlanAccepts file settings s.db)
    (h₂ : ProjectsWritten file settings retention now s₁ s₂)
    (h₃ : TeamsFinished file settings now s₂ s₃) {p : ProjectConfig} (hp : p ∈ file.projectList) :
    s₃.db.teamNamed p.team = s₁.db.teamNamed p.team := by
  have hsame : s₂.db.toTeamTables = s₁.db.toTeamTables := h₂.frame.only.teams
  have href := hplan.references p hp
  unfold TeamsFinished at h₃
  cases hteams : file.teams with
  | none =>
    rw [hteams, Option.elim_none] at h₃
    rw [h₃, hsame]
  | some ts =>
    rw [hteams, Option.elim_some] at h₃
    simp only [hteams] at href
    obtain ⟨t, ht, hname⟩ := href
    have hview := named_congr (h₃.declared t ht)
    rw [← hname, hview, hsame]

theorem applied_of_stages {s₁ s₂ s₃ s₄ : Session} (hs : s.Sound) (hplan : PlanAccepts file settings s.db)
    (hstart : actionsOf s = []) (h₁ : TeamsWritten P file now s s₁)
    (h₂ : ProjectsWritten file settings retention now s₁ s₂)
    (h₃ : TeamsFinished file settings now s₂ s₃) (h₄ : Reports s₃ s₄) :
    Applied P file settings retention now s.db s₄.db s₄.report := by
  have hteams₂ : s₂.db.toTeamTables = s₁.db.toTeamTables := h₂.frame.only.teams
  have hprojects₁ : s₁.db.toProjectTables = s.db.toProjectTables := h₁.only.projects
  have hfields : ∀ p ∈ file.projectList,
      fieldsIn s₄.db.toTeamTables p retention = fieldsIn s₁.db.toTeamTables p retention := by
    intro p hp
    rw [h₄.db]
    exact fieldsIn_congr (h₃.declared hplan h₂ hp)
  -- what the end of the transaction does to the teams, in either case
  have hend : s₃.Sound ∧ s₂.OnlyTeams s₃ ∧
      (∃ teams : List TeamRow, teams.Perm (file.teams.elim [] fun ts => undeclaredTeams ts s.db) ∧
        actionsOf s₃ = actionsOf s₂ ++ teams.flatMap fun row =>
          prunedEntries "team" row.name settings.teamOrphanPolicy row.orphanedAt.isSome) := by
    unfold TeamsFinished at h₃
    cases hteams : file.teams with
    | none =>
      rw [hteams, Option.elim_none] at h₃
      subst h₃
      exact ⟨h₂.frame.sound, .refl _, [], .nil, (List.append_nil _).symm⟩
    | some ts =>
      rw [hteams, Option.elim_some] at h₃
      obtain ⟨rows, hrows, hactions⟩ := h₃.actions
      refine ⟨h₃.sound, h₃.only, rows, hrows.trans ?_, hactions⟩
      have hsame : undeclaredTeams ts s₂.db = undeclaredTeams ts s₁.db := by
        rw [undeclaredTeams, undeclaredTeams, hteams₂]
      rw [hsame]
      exact undeclaredTeams_perm hs h₁.sound (h₁.others ts hteams)
  obtain ⟨hsound₃, honly₃, teams, hteamRows, hteamActions⟩ := hend
  obtain ⟨projects, hprojectRows, hprojectActions⟩ := h₂.actions
  have hview₂ : ∀ slug, projectViews s₁ slug = projectViews s slug :=
    fun slug => congrArg (fun T : ProjectTables => T.view slug) hprojects₁
  have hview₄ : ∀ slug, s₄.db.toProjectTables.view slug = projectViews s₂ slug := by
    intro slug
    rw [h₄.db, honly₃.projects]
  have hteam₂ : ∀ name, teamViews s₂ name = teamViews s₁ name :=
    fun name => congrArg (fun T : TeamTables => T.view name) hteams₂
  constructor
  case consistent =>
    rw [h₄.db]
    exact hsound₃.db
  case users =>
    rw [h₄.db, honly₃.users, h₂.frame.only.users, h₁.only.users]
  case uiTeams =>
    intro hui name
    unfold TeamsFinished at h₃
    rw [hui, Option.elim_none] at h₃
    rw [h₄.db, h₃]
    exact (hteam₂ name).trans (h₁.ui hui name)
  case declaredTeams =>
    intro t ht
    have hsynced := h₁.declared t ht
    unfold TeamsFinished at h₃
    cases hteams : file.teams with
    | none =>
      rw [ConfigFile.teamList, hteams] at ht
      cases ht
    | some ts =>
      rw [ConfigFile.teamList, hteams, Option.getD_some] at ht
      rw [hteams, Option.elim_some] at h₃
      rw [h₄.db]
      have hview := (h₃.declared t ht).trans (hteam₂ t.name)
      change TeamSynced P _ t now (teamViews s t.name) (teamViews s₃ t.name)
      rw [hview]
      exact hsynced
  case otherTeams =>
    intro ts hteams name hname
    unfold TeamsFinished at h₃
    rw [hteams, Option.elim_some] at h₃
    rw [h₄.db]
    refine (h₃.others name hname).trans ?_
    rw [hteam₂, h₁.others ts hteams name hname]
  case uiProjects =>
    intro hui slug
    rw [hview₄, h₂.ui hui, hview₂]
  case declaredProjects =>
    intro p hp
    have hsynced := h₂.declared p hp
    rw [hview₂] at hsynced
    rw [hfields p hp, hview₄]
    exact hsynced
  case otherProjects =>
    intro ps hprojects slug hslug
    rw [hview₄, h₂.others ps hprojects slug hslug, hview₂]
  case events =>
    have hevents := h₂.frame.events
    simp only [GoneProject, hprojects₁] at hevents ⊢
    rw [h₄.db, honly₃.projects]
    exact hevents
  case counted => exact h₄.counted hsound₃.report
  case actions =>
    refine ⟨projects, teams, ?_, hteamRows, ?_⟩
    · simp only [undeclaredProjects, hprojects₁] at hprojectRows ⊢
      exact hprojectRows
    · refine h₄.actions.trans ?_
      rw [hteamActions, hprojectActions, h₁.actions, hstart, List.nil_append]
      have hentries : file.projectList.flatMap (fun p =>
          projectEntries (fieldsIn s₁.db.toTeamTables p retention) p.slug (projectViews s₁ p.slug)) =
          file.projectList.flatMap fun p => projectEntries
            (fieldsIn s₄.db.toTeamTables p retention) p.slug (s.db.toProjectTables.view p.slug) := by
        refine List.flatMap_congr fun p hp => ?_
        rw [hfields p hp, hview₂]
      rw [hentries]

theorem Applied.of_notifications {n : NotificationConfig}
    (h : Applied P file settings retention now { d with notificationSettings := n } d' report) :
    Applied P file settings retention now d d' report :=
  ⟨h.consistent, h.users, h.uiTeams, h.declaredTeams, h.otherTeams, h.uiProjects,
    h.declaredProjects, h.otherProjects, h.events, h.counted, h.actions⟩

theorem applyPlan_yields (hd : s.db.Consistent) (hfile : file.Accepted P settings)
    (hplan : PlanAccepts file settings s.db) (hclash : R (.db P.uniqueViolation)) :
    Yields R (applyPlan P write file settings retention now syncedAt)
      (fun report s' => Applied P file settings retention now s.db s'.db report) s := by
  unfold applyPlan pruneAndSyncProjects
  simp only [Transaction.bind_assoc]
  refine .seq (saveNotifications_yields hfile fun n => .seq (yields_setReport ?_))
  have hs : Session.Sound ⟨{ s.db with notificationSettings := n },
      initialReport file settings syncedAt⟩ :=
    ⟨⟨hd.teams, hd.projects, hd.projectTeam, hd.userIds, hd.teamFresh, hd.projectFresh,
      hd.userFresh⟩, ⟨rfl, rfl, rfl, rfl, rfl, rfl⟩⟩
  refine writeTeams_yields hs hfile fun s₁ h₁ => ?_
  refine writeProjects_yields h₁.sound hfile (references_named hs hplan h₁) hclash fun s₂ h₂ => ?_
  have hend : Yields R (file.teams.elim (pure ()) fun teams =>
      pruneTeams P teams settings.teamOrphanPolicy now)
      (fun _ s₃ => TeamsFinished file settings now s₂ s₃) s₂ := by
    unfold TeamsFinished
    cases hteams : file.teams with
    | none => exact .ret rfl
    | some ts => exact pruneTeams_yields h₂.frame.sound (unowned_of_plan hs hplan h₁ h₂ hteams)
  refine .bind hend fun _ s₃ h₃ => .bind populateReport_yields fun _ s₄ h₄ => ?_
  refine .seq (yields_fetch (.read ?_))
  exact (applied_of_stages hs hplan rfl h₁ h₂ h₃ h₄).of_notifications

/-- The plan does not depend on the order in which the names are read. -/
theorem PlanHolds.perm {teams teams' : List String} {projects projects' : List (String × String)}
    (hteams : teams.Perm teams') (hprojects : projects.Perm projects') :
    PlanHolds file settings teams projects ↔ PlanHolds file settings teams' projects' := by
  have himp : ∀ {ts ts' : List String} {ps ps' : List (String × String)}, ts.Perm ts' →
      ps.Perm ps' → PlanHolds file settings ts ps → PlanHolds file settings ts' ps' := by
    intro ts ts' ps ps' ht hp h
    constructor
    · intro p hpmem
      have href := h.references p hpmem
      cases hfile : file.teams with
      | some desired =>
        simp only [hfile] at href
        exact href
      | none =>
        simp only [hfile] at href
        exact ht.mem_iff.mp href
    · intro desired hdesired hpolicy team hteam hundeclared p hpmem
      exact h.ownership desired hdesired hpolicy team (ht.mem_iff.mpr hteam) hundeclared p
        (hp.mem_iff.mpr hpmem)
  exact ⟨himp hteams hprojects, himp hteams.symm hprojects.symm⟩

/-- An apply fails where the database does, or because its plan is refused. -/
def Refused (file : ConfigFile) (settings : ManagementSettings) (d : Directory) (e : Error) : Prop :=
  (∃ db, e = .db db) ∨ ¬ PlanAccepts file settings d

theorem applyOnce_yields (hd : s.db.Consistent) (hfile : file.Accepted P settings) :
    Yields (Refused file settings s.db)
      (applyOnce P write file settings retention now syncedAt)
      (fun report s' => PlanAccepts file settings s.db ∧
        Applied P file settings retention now s.db s'.db report) s := by
  refine .seq (yields_select fun teams hteams => .seq (yields_select fun projects hprojects => ?_))
  refine .seq (.ofExcept (fun _ hok => ?_) fun e herror => ?_)
  · have hplan := (PlanHolds.perm hteams hprojects).mp (validatePlan_eq_ok.mp hok)
    refine (applyPlan_yields hd hfile hplan ?_).mono fun _ _ h => ⟨hplan, h⟩
    exact .inl ⟨_, rfl⟩
  · refine .inr fun hplan => ?_
    have hok := validatePlan_eq_ok (P := P) (u := ()).mpr ((PlanHolds.perm hteams hprojects).mpr hplan)
    rw [hok] at herror
    cases herror

theorem attempt_ensures {α : Type} {tx : Attempt → SyncTx α} {a : Attempt}
    {Q : α → Session → Prop} {result : Except Error α} (hdb : ∀ e, R (.db e))
    (hp : Yields R (tx a) Q ⟨d, .empty⟩) (h : attempt tx a d = (result, d')) :
    (∀ r, result = .ok r → ∃ s' : Session, s'.db = d' ∧ Q r s') ∧
      ∀ e, result = .error e → R e := by
  unfold attempt at h
  rcases hrun : (tx a).commit a.worlds ⟨d, .empty⟩ with ⟨result', s'⟩
  rw [hrun] at h
  obtain ⟨rfl, rfl⟩ := Prod.mk.inj h
  have hexpects : ∀ n, Expects R (a.worlds n) := fun n e _ => hdb e
  obtain ⟨hok, herror⟩ := hp.commit hexpects
  constructor
  · rintro r rfl
    exact ⟨s', rfl, hok r s' hrun⟩
  · rintro e rfl
    exact herror e s' hrun

theorem apply_cases (write : WritePolicy) (retention : ℤ) (attempts : ℕ → Attempt)
    (hd : d.Consistent) (hfile : file.Accepted P settings) :
    (∃ n report d', apply P write file settings retention attempts d = (.ok report, d') ∧
      PlanAccepts file settings d ∧
      Applied P file settings retention (attempts n).now d d' report) ∨
    ∃ e e', apply P write file settings retention attempts d = (.error e, d) ∧
      Refused file settings d e' ∧
      (e = e' ∨ e = .dbBusy "synchronize configuration" e') := by
  have hatomic : ∀ n (d : Directory) e d', attempt (fun a => applyOnce P write file settings retention
      a.now a.syncedAt) (attempts n) d = (.error e, d') → d' = d := fun _ _ _ _ h => attempt_error h
  have hattempt : ∀ {n result d'}, attempt (fun a => applyOnce P write file settings retention
      a.now a.syncedAt) (attempts n) d = (result, d') →
      (∀ report, result = .ok report → PlanAccepts file settings d ∧
        Applied P file settings retention (attempts n).now d d' report) ∧
      ∀ e, result = .error e → Refused file settings d e := by
    intro n result d' h
    obtain ⟨hok, herror⟩ := attempt_ensures (fun e => .inl ⟨e, rfl⟩)
      (applyOnce_yields (s := ⟨d, .empty⟩) hd hfile) h
    refine ⟨fun report hreport => ?_, herror⟩
    obtain ⟨s', rfl, hs'⟩ := hok report hreport
    exact hs'
  rcases retryFrom_cases hatomic write.maxRetries 0 d with ⟨n, report, d', hrun, happly⟩ | ⟨e, happly⟩
  · exact .inl ⟨n, report, d', happly, (hattempt hrun).1 report rfl⟩
  · obtain ⟨n, e', hrun, hcases⟩ := retryFrom_eq_error hatomic happly
    exact .inr ⟨e, e', happly, (hattempt hrun).2 e' rfl, hcases⟩

theorem Applied.references (h : Applied P file settings retention now d d' report)
    (hd : d.Consistent) (hplan : PlanAccepts file settings d) {p : ProjectConfig}
    (hp : p ∈ file.projectList) : ∃ team, d'.teamNamed p.team = some team := by
  have href := hplan.references p hp
  cases hteams : file.teams with
  | some ts =>
    simp only [hteams] at href
    obtain ⟨t, ht, hname⟩ := href
    have hmem : t ∈ file.teamList := by rwa [ConfigFile.teamList, hteams, Option.getD_some]
    obtain ⟨_, hview⟩ := h.declaredTeams t hmem
    obtain ⟨row, hrow, -⟩ := Option.map_eq_some_iff.mp hview
    exact ⟨row, hname ▸ hrow⟩
  | none =>
    simp only [hteams, List.mem_map] at href
    obtain ⟨row, hrow, hname⟩ := href
    have hbefore : d.toTeamTables.view p.team = some (d.toTeamTables.viewOf row) :=
      hname ▸ view_of_named (hd.teams.teamNamed_of_mem hrow)
    have hview := h.uiTeams hteams p.team
    rw [hbefore, Option.map_some] at hview
    obtain ⟨r, hr, -⟩ := Option.map_eq_some_iff.mp hview
    exact ⟨r, hr⟩

theorem ProjectSynced.isSome {c : ProjectFields} {slug : String} {old new : Option ProjectView}
    (h : ProjectSynced c slug now old new) : ∃ v, new = some v := by
  unfold ProjectSynced at h
  split at h
  · exact ⟨_, h⟩
  · obtain ⟨_, _, _, hnew⟩ := h
    exact ⟨_, hnew⟩

theorem Applied.declared_team (h : Applied P file settings retention now d d' report)
    (hd : d.Consistent) (hplan : PlanAccepts file settings d) {q : ProjectConfig}
    (hq : q ∈ file.projectList) : ∃ p ∈ d'.projects, ∃ t ∈ d'.teams,
      p.slug = q.slug ∧ t.name = q.team ∧ p.teamId = t.id := by
  obtain ⟨t, ht⟩ := h.references hd hplan hq
  have hteam : (fieldsIn d'.toTeamTables q retention).teamId = t.id := by
    rw [fieldsIn, ht]
    rfl
  have hsynced := h.declaredProjects q hq
  obtain ⟨v, hv⟩ := hsynced.isSome
  rw [hv] at hsynced
  obtain ⟨hmem, hslug⟩ := ProjectTables.projectSlugged_mem (slug_mem_view hv).1
  obtain ⟨htmem, hname⟩ := TeamTables.teamNamed_mem ht
  exact ⟨v.row, hmem, t, htmem, hslug, hname, hsynced.teamId.trans hteam⟩

/-- Every project is in a team that exists, and every declared one in the team it declares. -/
structure Referenced (file : ConfigFile) (d : Directory) : Prop where
  exist : ∀ p ∈ d.projects, ∃ t ∈ d.teams, t.id = p.teamId
  declared : ∀ q ∈ file.projectList, ∃ p ∈ d.projects, ∃ t ∈ d.teams,
    p.slug = q.slug ∧ t.name = q.team ∧ p.teamId = t.id

def lowerPlatform : Platform where
  toLowercase := id
  sqlLower := id
  debug := id
  parseUrl := fun _ => none
  dbText := fun _ => ""
  uniqueViolation := .rowNotFound
  foreignKeyViolation := .rowNotFound

def yamlSettings : ManagementSettings where
  projectSource := .yaml
  teamSource := .yaml
  serviceSource := .ui
  notificationSource := .ui
  projectOrphanPolicy := .readonly
  teamOrphanPolicy := .readonly

def coreTeam : TeamConfig := ⟨"core", some [⟨"ada@soika", .admin⟩], some [⟨"/dev", .contributor⟩]⟩

def coreFile : ConfigFile where
  version := 1
  notifications := none
  projects := some [⟨none, none, "api", "API", "core", none, none, none⟩]
  teams := some [coreTeam]
  alertmanagerProjectLabels := .empty

def parsedCore : ParsedFile lowerPlatform yamlSettings where
  file := coreFile
  parsed := ⟨.empty, coreFile, rfl⟩

/-- A user, in a team that the file does not declare. -/
def formerDirectory : Directory where
  teams := [⟨1, "former", .atSecond 0, .atSecond 0, none⟩]
  memberGrants := []
  groupGrants := []
  teamMembers := [⟨1, 0, .contributor, .atSecond 0⟩]
  invites := []
  defaultTeams := []
  projects := []
  issues := []
  events := []
  projectOwned := []
  users := [⟨0, "ada@soika", "Ada", "", .member, .oidc, .active⟩]
  userSsoGroups := []
  notificationSettings := ⟨.default⟩
  nextId := 2

theorem formerDirectory_consistent : formerDirectory.Consistent := by
  constructor
  case teams =>
    constructor <;> simp [formerDirectory, UniqueOn, TeamTables.HasTeam, TeamTables.teamOwned]
  case projects =>
    constructor <;> simp [formerDirectory, UniqueOn]
  all_goals simp [formerDirectory, UniqueOn]

def calmAttempt : Attempt where
  worlds n := ⟨none, List.reverse, List.reverse_perm, "short" ++ n.repr, "dsn" ++ n.repr⟩
  now := .atSecond 60
  syncedAt := .atSecond 60

def oneRun : WritePolicy := ⟨1, 1, le_refl 1⟩

def applyCore (d : Directory) : Except Error SyncReport × Directory :=
  apply lowerPlatform oneRun parsedCore.file yamlSettings 100 (fun _ => calmAttempt) d

theorem exists_ok {α : Type} {x : Except Error α × Directory} (h : x.1.isOk = true) :
    ∃ a, x = (.ok a, x.2) := by
  rcases x with ⟨e | a, d⟩
  · cases h
  · exact ⟨a, rfl⟩

theorem plan_predicts_apply {attempts : ℕ → Attempt} (hd : d.Consistent)
    (parsed : ParsedFile P settings) {teams : List String} {projects : List (String × String)}
    (hteams : teams.Perm (d.teams.map TeamRow.name)) (hprojects : projects.Perm d.projectTeams)
    (hplan : validatePlan P parsed.file settings teams projects = .ok ()) :
    (∃ report d', apply P write parsed.file settings retention attempts d = (.ok report, d') ∧
      Referenced parsed.file d') ∨
    ∃ db e, apply P write parsed.file settings retention attempts d = (.error e, d) ∧
      (e = .db db ∨ e = .dbBusy "synchronize configuration" (.db db)) := by
  have haccepts := (PlanHolds.perm hteams hprojects).mp (validatePlan_eq_ok.mp hplan)
  rcases apply_cases write retention attempts hd parsed.accepted with ⟨n, report, d', happly, -, h⟩ | ⟨e, e', happly, hrefused, he⟩
  · refine .inl ⟨report, d', happly, h.consistent.projectTeam, ?_⟩
    exact fun q hq => h.declared_team hd haccepts hq
  · rcases hrefused with ⟨db, rfl⟩ | hrefused
    · exact .inr ⟨db, e, happly, he⟩
    · exact absurd haccepts hrefused

theorem plan_predicts_apply_core :
    (∃ report d', applyCore formerDirectory = (.ok report, d') ∧ Referenced coreFile d') ∨
    ∃ db e, applyCore formerDirectory = (.error e, formerDirectory) ∧
      (e = .db db ∨ e = .dbBusy "synchronize configuration" (.db db)) :=
  plan_predicts_apply formerDirectory_consistent parsedCore (.refl _) (.refl _) rfl

theorem applied_of_ok {attempts : ℕ → Attempt} (hd : d.Consistent)
    (hfile : file.Accepted P settings)
    (h : apply P write file settings retention attempts d = (.ok report, d')) :
    PlanAccepts file settings d ∧
      ∃ n, Applied P file settings retention (attempts n).now d d' report := by
  rcases apply_cases write retention attempts hd hfile with ⟨n, report', d'', happly, hplan, h'⟩ |
    ⟨e, e', happly, -, -⟩
  · rw [happly] at h
    cases h
    exact ⟨hplan, n, h'⟩
  · rw [happly] at h
    cases h

theorem apply_converges {attempts : ℕ → Attempt} (hd : d.Consistent)
    (parsed : ParsedFile P settings) :
    (∀ report d', apply P write parsed.file settings retention attempts d = (.ok report, d') →
      ∃ n, Applied P parsed.file settings retention (attempts n).now d d' report) ∧
    ∀ e d', apply P write parsed.file settings retention attempts d = (.error e, d') → d' = d := by
  constructor
  · exact fun report d' h => (applied_of_ok hd parsed.accepted h).2
  · intro e d' h
    rcases apply_cases write retention attempts hd parsed.accepted with ⟨n, _, _, happly, -, -⟩ |
      ⟨e', _, happly, -, -⟩
    · rw [happly] at h
      cases h
    · rw [happly] at h
      cases h
      rfl

theorem apply_converges_core : ∃ report d', applyCore formerDirectory = (.ok report, d') ∧
    Applied lowerPlatform coreFile yamlSettings 100 calmAttempt.now formerDirectory d' report := by
  obtain ⟨report, hok⟩ := exists_ok (x := applyCore formerDirectory) (by decide +kernel)
  obtain ⟨_, happlied⟩ := (apply_converges formerDirectory_consistent parsedCore).1 report _ hok
  exact ⟨report, _, hok, happlied⟩

end ConfigSync

end Soika
