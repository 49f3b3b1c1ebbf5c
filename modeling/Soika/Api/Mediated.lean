import Soika.Adapters.SiteSpec
import Soika.Api.Mediation

/-! # Each request is guarded

Handler by handler: its calls have their permission, and its response shows what the caller may
see. From this, complete mediation in every run of the server.
-/

namespace Soika.Site

open Table Interaction Auth

variable {H : SiteHost} {app : SiteState} {presented : String → Prop} {h : SiteHistory}
  {cookies : Option String}

section Responses

variable {state : AppState} {status : ℕ}

theorem warranted_project {r : Response} {id : Id} (hshown : Shown state presented h id)
    (hprojects : r.projectIds = [id]) (hissues : r.issuesShown = []) (hevents : r.eventsShown = [])
    (hteams : r.teamIds = []) (husers : r.usersListed = []) : Warranted state presented h r := by
  constructor
  · rw [hprojects]
    intro _ hmem
    obtain rfl := List.mem_singleton.mp hmem
    exact hshown
  · rw [hissues]
    exact fun _ hmem => absurd hmem List.not_mem_nil
  · rw [hevents]
    exact fun _ hmem => absurd hmem List.not_mem_nil
  · rw [hteams]
    exact fun _ hmem => absurd hmem List.not_mem_nil
  · rw [husers]
    exact fun _ hmem => absurd hmem List.not_mem_nil

theorem warranted_issue {r : Response} {issueId : Id} (hreaches : ReachesIssue state presented h issueId)
    (hprojects : r.projectIds = []) (hissues : ∀ i ∈ r.issuesShown, i.id = issueId)
    (hevents : ∀ e ∈ r.eventsShown, e.issueId = issueId) (hteams : r.teamIds = [])
    (husers : r.usersListed = []) : Warranted state presented h r := by
  constructor
  · rw [hprojects]
    exact fun _ hmem => absurd hmem List.not_mem_nil
  · intro i hi
    rw [hissues i hi]
    exact .inr hreaches
  · intro e he
    rw [hevents e he]
    exact .inr hreaches
  · rw [hteams]
    exact fun _ hmem => absurd hmem List.not_mem_nil
  · rw [husers]
    exact fun _ hmem => absurd hmem List.not_mem_nil

theorem warranted_teams {r : Response} (hprojects : r.projectIds = []) (hissues : r.issuesShown = [])
    (hevents : r.eventsShown = []) (hteams : ∀ id ∈ r.teamIds, Belongs state presented h id)
    (husers : r.usersListed = []) : Warranted state presented h r := by
  constructor
  · rw [hprojects]
    exact fun _ hmem => absurd hmem List.not_mem_nil
  · rw [hissues]
    exact fun _ hmem => absurd hmem List.not_mem_nil
  · rw [hevents]
    exact fun _ hmem => absurd hmem List.not_mem_nil
  · exact hteams
  · rw [husers]
    exact fun _ hmem => absurd hmem List.not_mem_nil

end Responses

section Handlers

variable (hpresented : ∀ id, sessionIdFrom app.toAppState cookies = some id → presented id)
include hpresented

omit hpresented in
theorem guarded_uniqueShortId {codes : List String} {k : String → Handler}
    (hk : ∀ code h', h ⊆ h' → Guarded H app presented (k code) h') :
    Guarded H app presented ((uniqueShortId codes).bind k) h := by
  induction codes generalizing h with
  | nil => trivial
  | cons code codes ih =>
    apply guarded_read_bind
    intro d taken h₁ _ hsub₁ _
    split
    · exact ih fun code h₂ hsub₂ => hk code h₂ (List.Subset.trans hsub₁ hsub₂)
    · exact hk code h₁ hsub₁

theorem guarded_createProject (req : NewProjectRequest) (draw : ProjectDraw) :
    Guarded H app presented (Projects.create app cookies req draw) h := by
  apply guarded_currentUser hpresented
  intro user h₁ _ huser
  apply guarded_require
  split
  · exact guarded_refuse _ _
  apply guarded_requireTeamManager (fun _ => guarded_refuse _ _) huser
  intro h₂ _ hteam
  split
  · exact guarded_refuse _ _
  apply guarded_uniqueShortId
  intro shortId h₃ hsub₃
  have hteam₃ := hteam.mono (Told.mono hsub₃)
  apply guarded_write
  · exact hteam₃
  · intro s row h₄ _ hsub₄ hwrote
    exact warranted_project (.created (hteam₃.mono (Told.mono hsub₄)) hwrote rfl) rfl rfl rfl rfl rfl

theorem guarded_listProjects : Guarded H app presented (Projects.list app cookies) h := by
  apply guarded_currentUser hpresented
  intro user h₁ _ huser
  split
  · rename_i hmanage
    apply guarded_read
    intro d rows h₂ _ hsub₂ _
    have hmanages : Manages app.toAppState presented (Told h₂) :=
      ⟨user, huser.mono (Told.mono hsub₂), hmanage⟩
    constructor
    · exact fun _ _ => .role (.inl hmanages)
    all_goals exact fun _ hmem => absurd hmem List.not_mem_nil
  · apply guarded_read
    intro d rows h₂ _ hsub₂ hrows
    constructor
    · intro id hid
      obtain ⟨view, hview, rfl⟩ := List.mem_map.mp hid
      obtain ⟨row, hrow, rfl⟩ := List.mem_map.mp hview
      exact .listed (huser.mono (Told.mono hsub₂)) hrows hrow rfl
    all_goals exact fun _ hmem => absurd hmem List.not_mem_nil

theorem guarded_getProject (id : String) :
    Guarded H app presented (Projects.get app cookies id) h := by
  apply guarded_currentUser hpresented
  intro user h₁ _ huser
  apply guarded_resolveProject
  intro project h₂ hsub₂
  apply guarded_requireMember (huser.mono (Told.mono hsub₂))
  intro role h₃ _ hholds
  apply guarded_read
  intro d issues h₄ hissues hsub₄ _
  have hmember := hholds.member.mono hsub₄
  constructor
  · intro id hid
    obtain rfl := List.mem_singleton.mp hid
    exact .role hmember
  · intro i hi
    obtain ⟨view, hview, rfl⟩ := List.mem_map.mp hi
    obtain ⟨issue, hissue, rfl⟩ := List.mem_map.mp hview
    rw [(Engine.list_mem H.arrange_perm hissues issue hissue).2]
    exact .inl hmember
  all_goals exact fun _ hmem => absurd hmem List.not_mem_nil

omit hpresented in
theorem guarded_updateRow {id : Id} {u : ProjectRowUpdate}
    (hholds : Holds app.toAppState presented h .admin id)
    (hteam : u.teamId ≠ none → Manages app.toAppState presented (Told h)) :
    Guarded H app presented (do
      let updated : ProjectRow ← write (.updateProject id u)
      return .project 200 (.fromProject app.baseUrl updated)) h := by
  apply guarded_write
  · exact ⟨hholds, hteam⟩
  · intro s row h₁ hrun hsub₁ _
    obtain ⟨p, hp, -, rfl, -⟩ := Accounts.updateProject_eq_ok.mp
      (Accounts.settle_eq_ok.mp (Prod.ext hrun rfl))
    refine warranted_project (.role (hholds.member.mono hsub₁)) ?_ rfl rfl rfl rfl
    exact congrArg (fun i => [i]) (ProjectTables.projectById_mem hp).2

theorem guarded_updateProject (id : String) (req : UpdateProjectRequest) :
    Guarded H app presented (Projects.update app cookies id req) h := by
  apply guarded_currentUser hpresented
  intro user h₁ _ huser
  apply guarded_require
  apply guarded_resolveProject
  intro project h₂ hsub₂
  apply guarded_requireAdmin (huser.mono (Told.mono hsub₂))
  intro h₃ _ hholds
  split
  · exact guarded_refuse _ _
  · apply guarded_updateRow hholds
    exact fun hteam => absurd rfl hteam

theorem guarded_changeTeam (id : String) (teamId : Id) :
    Guarded H app presented (Projects.changeTeam app cookies id teamId) h := by
  apply guarded_currentUser hpresented
  intro user h₁ _ huser
  apply guarded_require
  apply guarded_resolveProject
  intro project h₂ hsub₂
  apply guarded_requireManager (huser.mono (Told.mono hsub₂))
  intro hmanages
  apply guarded_read
  intro d found h₃ _ hsub₃ _
  have hmanages₃ := hmanages.mono (Told.mono hsub₃)
  cases found with
  | none => exact guarded_refuse _ _
  | some team =>
    apply guarded_updateRow (.inl hmanages₃)
    exact fun _ => hmanages₃

theorem guarded_deleteProject (id : String) :
    Guarded H app presented (Projects.delete app cookies id) h := by
  apply guarded_currentUser hpresented
  intro user h₁ _ huser
  apply guarded_require
  apply guarded_resolveProject
  intro project h₂ hsub₂
  apply guarded_requireAdmin (huser.mono (Told.mono hsub₂))
  intro h₃ _ hholds
  apply guarded_write
  · exact hholds
  · exact fun _ _ _ _ _ _ => guarded_noContent

theorem guarded_dsn (id : String) : Guarded H app presented (Projects.dsn app cookies id) h := by
  apply guarded_currentUser hpresented
  intro user h₁ _ huser
  apply guarded_resolveProject
  intro project h₂ hsub₂
  apply guarded_requireMember (huser.mono (Told.mono hsub₂))
  intro role h₃ _ hholds
  exact warranted_project (.role hholds.member) rfl rfl rfl rfl rfl

theorem guarded_sdkSetup (id : String) :
    Guarded H app presented (Projects.sdkSetup app cookies id) h := by
  apply guarded_currentUser hpresented
  intro user h₁ _ huser
  apply guarded_resolveProject
  intro project h₂ hsub₂
  apply guarded_requireMember (huser.mono (Told.mono hsub₂))
  intro role h₃ _ hholds
  exact warranted_project (.role hholds.member) rfl rfl rfl rfl rfl

theorem guarded_muteProject (id : String) (muted : Option Bool) :
    Guarded H app presented (Projects.mute app cookies id muted) h := by
  apply guarded_currentUser hpresented
  intro user h₁ _ huser
  apply guarded_resolveProject
  intro project h₂ hsub₂
  apply guarded_requireAdmin (huser.mono (Told.mono hsub₂))
  intro h₃ _ hholds
  apply guarded_updateRow hholds
  exact fun hteam => absurd rfl hteam

theorem guarded_regenerateDsn (id newKey : String) :
    Guarded H app presented (Projects.regenerateDsn app cookies id newKey) h := by
  apply guarded_currentUser hpresented
  intro user h₁ _ huser
  apply guarded_resolveProject
  intro project h₂ hsub₂
  apply guarded_requireAdmin (huser.mono (Told.mono hsub₂))
  intro h₃ _ hholds
  apply guarded_write
  · exact hholds
  · intro s row h₄ hrun hsub₄ _
    obtain ⟨p, hp, -, rfl, -⟩ := Accounts.regenerateDsn_eq_ok.mp
      (Accounts.settle_eq_ok.mp (Prod.ext hrun rfl))
    refine warranted_project (.role (hholds.member.mono hsub₄)) ?_ rfl rfl rfl rfl
    exact congrArg (fun i => [i]) (ProjectTables.projectById_mem hp).2

omit hpresented in
theorem guarded_favoriteTarget {userId projectId : Id} {favorited : Option Bool} {k : Bool → Handler}
    (hk : ∀ target h', h ⊆ h' → Guarded H app presented (k target) h') :
    Guarded H app presented ((Projects.favoriteTarget userId projectId favorited).bind k) h := by
  cases favorited with
  | some target => exact hk target h (List.Subset.refl _)
  | none =>
    apply guarded_read_bind
    intro d favorites h' _ hsub _
    exact hk _ h' hsub

omit hpresented in
theorem guarded_setFavorite {userId projectId : Id} {target : Bool} {k : Handler}
    (huser : ∃ user, Admitted app.toAppState presented (Told h) user ∧ user.id = userId)
    (hholds : Holds app.toAppState presented h .member projectId)
    (hk : ∀ h', Guarded H app presented k h') :
    Guarded H app presented ((Projects.setFavorite userId projectId target).bind fun _ => k) h := by
  cases target with
  | true =>
    exact guarded_write (w := .addFavorite userId projectId) ⟨huser, hholds⟩ fun _ _ h' _ _ _ => hk h'
  | false =>
    exact guarded_write (w := .removeFavorite userId projectId) ⟨huser, hholds⟩
      fun _ _ h' _ _ _ => hk h'

theorem guarded_favorite (id : String) (favorited : Option Bool) :
    Guarded H app presented (Projects.favorite app cookies id favorited) h := by
  apply guarded_currentUser hpresented
  intro user h₁ _ huser
  apply guarded_resolveProject
  intro project h₂ hsub₂
  have huser₂ := huser.mono (Told.mono hsub₂)
  apply guarded_requireMember huser₂
  intro role h₃ hsub₃ hholds
  apply guarded_favoriteTarget
  intro target h₄ hsub₄
  apply guarded_setFavorite
  · exact ⟨user, huser₂.mono (Told.mono (List.Subset.trans hsub₃ hsub₄)), rfl⟩
  · exact hholds.member.mono hsub₄
  · intro h₅
    constructor <;> exact fun _ hmem => absurd hmem List.not_mem_nil

theorem guarded_listIssues (id : String) (q : IssueListQuery) :
    Guarded H app presented (Issues.listForProject app cookies id q) h := by
  apply guarded_currentUser hpresented
  intro user h₁ _ huser
  apply guarded_resolveProject
  intro project h₂ hsub₂
  apply guarded_requireMember (huser.mono (Told.mono hsub₂))
  intro role h₃ _ hholds
  split
  · exact guarded_refuse _ _
  · apply guarded_read
    intro d issues h₄ hissues hsub₄ _
    constructor
    · exact fun _ hmem => absurd hmem List.not_mem_nil
    · intro i hi
      obtain ⟨view, hview, rfl⟩ := List.mem_map.mp hi
      obtain ⟨issue, hissue, rfl⟩ := List.mem_map.mp hview
      rw [(Engine.list_mem H.arrange_perm hissues issue hissue).2]
      exact .inl (hholds.member.mono hsub₄)
    all_goals exact fun _ hmem => absurd hmem List.not_mem_nil

theorem guarded_getIssue (id : String) :
    Guarded H app presented (Issues.get app cookies id) h := by
  apply guarded_currentUser hpresented
  intro user h₁ _ huser
  apply guarded_authorizeIssue huser
  intro issue project h₂ _ hreaches
  apply guarded_read
  intro d latest h₃ hlatest hsub₃ _
  obtain rfl := Except.ok.inj hlatest
  refine warranted_issue (hreaches.mono hsub₃) rfl ?_ ?_ rfl rfl
  · intro i hi
    obtain rfl := List.mem_singleton.mp hi
    rfl
  · intro e he
    exact (SiteHost.mem_eventsOf.mp (List.mem_of_mem_head? (Option.mem_toList.mp he))).2

theorem guarded_listEvents (id : String) (limit : ℤ) :
    Guarded H app presented (Issues.listEvents app cookies id limit) h := by
  apply guarded_currentUser hpresented
  intro user h₁ _ huser
  apply guarded_authorizeIssue huser
  intro issue project h₂ _ hreaches
  apply guarded_read
  intro d events h₃ hevents hsub₃ _
  obtain rfl := Except.ok.inj hevents
  refine warranted_issue (hreaches.mono hsub₃) rfl (fun _ hmem => absurd hmem List.not_mem_nil) ?_ rfl
    rfl
  exact fun e he => (SiteHost.mem_eventsOf.mp (List.mem_of_mem_take he)).2

omit hpresented in
theorem warranted_updated {state : AppState} {issueId : Id} {issue : Issue} {slug : String}
    (hreaches : ReachesIssue state presented h issueId) (hid : issue.id = issueId) :
    Warranted state presented h (.issue ⟨issue, slug⟩) := by
  refine warranted_issue hreaches rfl ?_ (fun _ hmem => absurd hmem List.not_mem_nil) rfl rfl
  intro i hi
  obtain rfl := List.mem_singleton.mp hi
  exact hid

theorem guarded_setStatus (id : String) (status : IssueStatus) :
    Guarded H app presented (Issues.setStatus app cookies id status) h := by
  apply guarded_currentUser hpresented
  intro user h₁ _ huser
  apply guarded_authorizeIssue huser
  intro issue project h₂ _ hreaches
  apply guarded_write
  · exact hreaches
  · intro s updated h₃ hrun hsub₃ _
    obtain ⟨row, hrow, rfl, -, -⟩ := updateReturning_eq_ok.mp (Prod.ext hrun rfl)
    exact warranted_updated (hreaches.mono hsub₃) (Store.issueById_mem hrow).2

theorem guarded_muteIssue (id : String) (req : MuteRequest) :
    Guarded H app presented (Issues.mute app cookies id req) h := by
  apply guarded_currentUser hpresented
  intro user h₁ _ huser
  apply guarded_query
  intro s now h₂ _ hsub₂ _
  split
  · trivial
  · exact guarded_refuse _ _
  · apply guarded_authorizeIssue (huser.mono (Told.mono hsub₂))
    intro issue project h₃ _ hreaches
    apply guarded_query
    intro s later h₄ _ hsub₄ _
    have hreaches₄ := hreaches.mono hsub₄
    apply guarded_write
    · exact hreaches₄
    · intro s updated h₅ hrun hsub₅ _
      obtain ⟨row, hrow, rfl, -, -⟩ := updateReturning_eq_ok.mp (Prod.ext hrun rfl)
      exact warranted_updated (hreaches₄.mono hsub₅) (Store.issueById_mem hrow).2

omit hpresented in
/-- The two statements of PostgreSQL, however often the second is tried. -/
theorem guarded_pgOverrideFingerprint {issueId : Id} {fingerprint : String} {k : Issue → Handler}
    (hreaches : ReachesIssue app.toAppState presented h issueId)
    (hk : ∀ issue h', h ⊆ h' → issue.id = issueId → Guarded H app presented (k issue) h') (n : ℕ) :
    Guarded H app presented ((pgOverrideFingerprint issueId fingerprint n).bind k) h := by
  induction n generalizing h with
  | zero => trivial
  | succ n ih =>
    apply guarded_write_bind (w := .lockAndMerge issueId fingerprint)
    · exact hreaches
    · intro s o h₁ hrun hsub₁ _
      have hok := (lockAndMerge_ok (commit_eq_ok.mp (Prod.ext hrun rfl))).1
      cases o with
      | some issue => exact hk issue h₁ hsub₁ (hok issue rfl)
      | none =>
        have hreaches₁ := hreaches.mono hsub₁
        apply guarded_attempt (w := .renameLocked issueId fingerprint)
        · exact hreaches₁
        · intro s issue h₂ hrun hsub₂
          have hrenamed := renameLocked_ok (commit_eq_ok.mp (Prod.ext hrun rfl))
          exact hk issue h₂ (List.Subset.trans hsub₁ hsub₂) hrenamed.1
        · intro e h₂ hsub₂
          dsimp only
          split
          · apply ih (hreaches₁.mono hsub₂)
            intro issue h₃ hsub₃ hid
            exact hk issue h₃ (List.Subset.trans hsub₁ (List.Subset.trans hsub₂ hsub₃)) hid
          · trivial

theorem guarded_updateFingerprint (id fingerprint : String) :
    Guarded H app presented (Issues.updateFingerprint app cookies id fingerprint) h := by
  apply guarded_currentUser hpresented
  intro user h₁ _ huser
  split
  · exact guarded_refuse _ _
  apply guarded_authorizeIssue huser
  intro issue project h₂ _ hreaches
  unfold overrideFingerprint
  cases app.dialect with
  | sqlite =>
    apply guarded_write
    · exact hreaches
    · intro s updated h₃ hrun hsub₃ _
      have hok := overrideFingerprintOnce_ok (commit_eq_ok.mp (Prod.ext hrun rfl))
      exact warranted_updated (hreaches.mono hsub₃) hok.1
  | postgres =>
    apply guarded_pgOverrideFingerprint hreaches
    intro updated h₃ hsub₃ hid
    exact warranted_updated (hreaches.mono hsub₃) hid

theorem guarded_getEvent (id : PathId) :
    Guarded H app presented (Events.get app cookies id) h := by
  apply guarded_currentUser hpresented
  intro user h₁ _ huser
  cases id with
  | text raw => exact guarded_refuse _ _
  | uuid id =>
    apply guarded_read
    intro d found h₂ _ hsub₂ _
    cases found with
    | none => exact guarded_refuse _ _
    | some event =>
      apply guarded_requireMember (huser.mono (Told.mono hsub₂))
      intro role h₃ _ hholds
      constructor
      · exact fun _ hmem => absurd hmem List.not_mem_nil
      · exact fun _ hmem => absurd hmem List.not_mem_nil
      · intro e he
        obtain rfl := List.mem_singleton.mp he
        exact .inl hholds.member
      · exact fun _ hmem => absurd hmem List.not_mem_nil
      · exact fun _ hmem => absurd hmem List.not_mem_nil

theorem guarded_listTeams : Guarded H app presented (Teams.list app cookies) h := by
  apply guarded_currentUser hpresented
  intro user h₁ _ huser
  split
  · rename_i hmanage
    apply guarded_read
    intro d rows h₂ _ hsub₂ _
    apply guarded_summaries
    intro views h₃ hsub₃ _
    have huser₃ := huser.mono (Told.mono (List.Subset.trans hsub₂ hsub₃))
    refine warranted_teams rfl rfl rfl ?_ rfl
    exact fun _ _ => .admin (.inl ⟨user, huser₃, hmanage⟩)
  · apply guarded_read
    intro d rows h₂ _ hsub₂ hrows
    apply guarded_summaries
    intro views h₃ hsub₃ hviews
    refine warranted_teams rfl rfl rfl ?_ rfl
    intro id hid
    obtain ⟨view, hview, rfl⟩ := List.mem_map.mp hid
    refine .listed (huser.mono (Told.mono (List.Subset.trans hsub₂ hsub₃))) (hrows.mono hsub₃) ?_ rfl
    rw [← hviews]
    exact List.mem_map_of_mem hview

theorem guarded_createTeam (name : String) :
    Guarded H app presented (Teams.create app cookies name) h := by
  apply guarded_adminUser hpresented
  intro user h₁ _ hmanages
  apply guarded_require
  split
  · trivial
  · apply guarded_write
    · exact hmanages
    · intro s team h₂ _ hsub₂ _
      exact guarded_loadTeamView (.admin (.inl (hmanages.mono (Told.mono hsub₂)))) _

theorem guarded_getTeam (id : PathId) : Guarded H app presented (Teams.get app cookies id) h := by
  apply guarded_currentUser hpresented
  intro user h₁ _ huser
  apply guarded_resolveTeam
  intro team h₂ hsub₂
  have huser₂ := huser.mono (Told.mono hsub₂)
  split
  · rename_i hmanage
    exact guarded_loadTeamView (.admin (.inl ⟨user, huser₂, hmanage⟩)) _
  · apply guarded_read
    intro d member h₃ _ hsub₃ hseen
    cases member with
    | true => exact guarded_loadTeamView (.member (huser₂.mono (Told.mono hsub₃)) hseen) _
    | false => trivial

theorem guarded_updateTeam (id : PathId) (name : String) :
    Guarded H app presented (Teams.update app cookies id name) h := by
  apply guarded_adminUser hpresented
  intro user h₁ _ hmanages
  apply guarded_require
  apply guarded_resolveTeam
  intro team h₂ hsub₂
  split
  · trivial
  · have hmanages₂ := hmanages.mono (Told.mono hsub₂)
    apply guarded_write
    · exact hmanages₂
    · intro s _ h₃ _ hsub₃ _
      apply guarded_read
      intro d found h₄ _ hsub₄ _
      cases found with
      | none => trivial
      | some team =>
        apply guarded_loadTeamView
        exact .admin (.inl (hmanages₂.mono (Told.mono (List.Subset.trans hsub₃ hsub₄))))

theorem guarded_deleteTeam (id : PathId) (moveProjectsTo : Option Id) :
    Guarded H app presented (Teams.delete app cookies id moveProjectsTo) h := by
  apply guarded_adminUser hpresented
  intro user h₁ _ hmanages
  apply guarded_require
  apply guarded_resolveTeam
  intro team h₂ hsub₂
  apply guarded_require
  apply guarded_change
  · exact hmanages.mono (Told.mono hsub₂)
  · exact fun _ _ _ _ _ _ => guarded_noContent

theorem guarded_addMember (id : PathId) (userId : Id) (role : Option TeamRole) :
    Guarded H app presented (Teams.addMember app cookies id userId role) h := by
  apply guarded_currentUser hpresented
  intro caller h₁ _ hcaller
  apply guarded_require
  apply guarded_resolveTeam
  intro found h₂ hsub₂
  apply guarded_requireTeamManager (fun _ => guarded_fail _) (hcaller.mono (Told.mono hsub₂))
  intro h₃ _ hteam
  apply guarded_read
  intro d team h₄ hfound hsub₄ _
  cases team with
  | none => trivial
  | some team =>
    apply guarded_query
    intro s user h₅ _ hsub₅ _
    cases user with
    | none => trivial
    | some user =>
      have hteam₅ := hteam.mono (Told.mono (List.Subset.trans hsub₄ hsub₅))
      apply guarded_change
      · exact hteam₅
      · intro s _ d h₆ _ hsub₆
        have hid : team.id = found.id := (lookup_eq_some_mem (Except.ok.inj hfound)).2
        apply guarded_loadTeamView
        rw [hid]
        exact .admin (hteam₅.mono (Told.mono hsub₆))

theorem guarded_setMemberRole (id userId : PathId) (role : TeamRole) :
    Guarded H app presented (Teams.setMemberRole app cookies id userId role) h := by
  apply guarded_currentUser hpresented
  intro caller h₁ _ hcaller
  apply guarded_require
  apply guarded_resolveTeam
  intro found h₂ hsub₂
  cases userId with
  | text raw => trivial
  | uuid userId =>
    apply guarded_requireTeamManager (fun _ => guarded_fail _) (hcaller.mono (Told.mono hsub₂))
    intro h₃ _ hteam
    apply guarded_read
    intro d team h₄ hfound hsub₄ _
    cases team with
    | none => trivial
    | some team =>
      apply guarded_read
      intro d members h₅ _ hsub₅ _
      split
      · trivial
      · split
        · trivial
        · have hteam₅ := hteam.mono (Told.mono (List.Subset.trans hsub₄ hsub₅))
          apply guarded_change
          · exact hteam₅
          · intro s _ d h₆ _ hsub₆
            have hid : team.id = found.id := (lookup_eq_some_mem (Except.ok.inj hfound)).2
            apply guarded_loadTeamView
            rw [hid]
            exact .admin (hteam₅.mono (Told.mono hsub₆))

theorem guarded_removeMember (id userId : PathId) :
    Guarded H app presented (Teams.removeMember app cookies id userId) h := by
  apply guarded_currentUser hpresented
  intro caller h₁ _ hcaller
  apply guarded_require
  apply guarded_resolveTeam
  intro found h₂ hsub₂
  cases userId with
  | text raw => trivial
  | uuid userId =>
    apply guarded_requireTeamManager (fun _ => guarded_fail _) (hcaller.mono (Told.mono hsub₂))
    intro h₃ _ hteam
    apply guarded_read
    intro d members h₄ _ hsub₄ _
    split
    · trivial
    · apply guarded_change
      · exact hteam.mono (Told.mono hsub₄)
      · exact fun _ _ _ _ _ _ => guarded_noContent

theorem guarded_listInvites (id : PathId) :
    Guarded H app presented (Invites.list app cookies id) h := by
  apply guarded_currentUser hpresented
  intro user h₁ _ huser
  apply guarded_resolveTeam
  intro team h₂ hsub₂
  apply guarded_requireTeamManager (fun _ => guarded_refuse _ _) (huser.mono (Told.mono hsub₂))
  intro h₃ _ hteam
  apply guarded_read
  intro d invites h₄ hinvites hsub₄ _
  obtain rfl := Except.ok.inj hinvites
  refine warranted_teams rfl rfl rfl ?_ rfl
  intro id hid
  obtain ⟨view, hview, rfl⟩ := List.mem_map.mp hid
  obtain ⟨invite, hinvite, rfl⟩ := List.mem_map.mp hview
  have hrow : invite.teamId = team.id := (mem_select.mp (List.mem_mergeSort.mp hinvite)).2
  change Belongs app.toAppState presented h₄ invite.teamId
  rw [hrow]
  exact .admin (hteam.mono (Told.mono hsub₄))

theorem guarded_createInvite (id : PathId) (role : Option TeamRole) (email : Option String)
    (token : String) : Guarded H app presented (Invites.create app cookies id role email token) h := by
  apply guarded_currentUser hpresented
  intro user h₁ _ huser
  apply guarded_require
  apply guarded_resolveTeam
  intro found h₂ hsub₂
  apply guarded_requireTeamManager (fun _ => guarded_refuse _ _) (huser.mono (Told.mono hsub₂))
  intro h₃ _ hteam
  apply guarded_read
  intro d team h₄ _ hsub₄ _
  cases team with
  | none => exact guarded_refuse _ _
  | some team =>
    dsimp only
    split
    · exact guarded_refuse _ _
    apply guarded_query
    intro s now h₅ _ hsub₅ _
    have hteam₅ := hteam.mono (Told.mono (List.Subset.trans hsub₄ hsub₅))
    cases now.add inviteTtl with
    | none => trivial
    | some expiresAt =>
      apply guarded_change (w := .createInvite _)
      · exact hteam₅
      · intro s invite d h₆ hrun hsub₆
        obtain ⟨-, -, rfl, -⟩ := Accounts.createInvite_eq_ok.mp hrun
        refine warranted_teams rfl rfl rfl ?_ rfl
        intro id hid
        obtain rfl := List.mem_singleton.mp hid
        exact .admin (hteam₅.mono (Told.mono hsub₆))

theorem guarded_revokeInvite (id : PathId) (token : String) :
    Guarded H app presented (Invites.revoke app cookies id token) h := by
  apply guarded_currentUser hpresented
  intro user h₁ _ huser
  apply guarded_resolveTeam
  intro team h₂ hsub₂
  apply guarded_requireTeamManager (fun _ => guarded_refuse _ _) (huser.mono (Told.mono hsub₂))
  intro h₃ _ hteam
  apply guarded_query
  intro s found h₄ _ hsub₄ htold
  cases found with
  | none => exact guarded_refuse _ _
  | some invite =>
    dsimp only
    split
    · rename_i hsame
      apply guarded_change
      · exact ⟨invite, htold, hsame ▸ hteam.mono (Told.mono hsub₄)⟩
      · exact fun _ _ _ _ _ _ => guarded_noContent
    · exact guarded_refuse _ _

section Administration

variable {m : Machine authCalls Error Server} {state : AppState} {id : Id}

omit hpresented

theorem mayAdminister {K : Knowledge} {admin target : UserRow} (hadmin : Admitted state presented K admin)
    (hmanage : admin.instanceRole.canManageInstance = true) (htarget : K (.findUserById id) (some target))
    (hcheck : ¬ ((state.adminUsers.apply target).instanceRole.isOwner &&
      !admin.instanceRole.isOwner) = true) : MayAdminister state presented K id := by
  refine ⟨⟨admin, hadmin, hmanage⟩, ?_⟩
  by_cases howner : admin.instanceRole.isOwner = true
  · exact .inl ⟨admin, hadmin, howner⟩
  · exact .inr ⟨target, htarget, by simpa [howner] using hcheck⟩

theorem guarded_listUsers
    (hpresented : ∀ id, sessionIdFrom app.toAppState cookies = some id → presented id) :
    Guarded H app presented (listUsers app cookies) h := by
  apply guarded_adminUser hpresented
  intro user h₁ _ hmanages
  apply guarded_read
  intro d users h₂ _ hsub₂ _
  constructor
  case users => exact fun _ _ => hmanages.mono (Told.mono hsub₂)
  all_goals exact fun _ hmem => absurd hmem List.not_mem_nil

theorem guarded_administer {p : Prog authCalls Error Auth.Response}
    (hp : Administered H.machine app.toAppState presented (fun _ _ => True) p []) :
    Guarded H app presented (administer p) h := by
  apply guarded_inl hp
  intro response h' h₁ _ _ _
  constructor <;> exact fun _ hmem => absurd hmem List.not_mem_nil

theorem approveUser_administered
    (hpresented : ∀ id, sessionIdFrom state cookies = some id → presented id) (id : Id) :
    Administered m state presented (fun _ _ => True) (Api.approveUser state cookies id) [] := by
  apply administered_bind (adminUser_administered hpresented)
  rintro admin h₁ ⟨hadmin, hmanage⟩
  apply administered_ask
  intro found h₂ hsub₂ htarget
  cases found with
  | none => exact administered_fail _
  | some target =>
    dsimp only
    split
    · exact administered_fail _
    · rename_i hcheck
      have hadmin₂ := hadmin.mono (AuthTold.mono hsub₂)
      have hupdated : ∀ update, Administered m state presented (fun _ _ => True)
          (updateUser id update) h₂ := by
        intro update
        apply administered_put
        · exact mayAdminister hadmin₂ hmanage htarget hcheck
        · intro _ h₃ _
          apply administered_ask
          intro found h₄ _ _
          cases found with
          | none => exact administered_fail _
          | some user => exact fun _ _ => trivial
      exact administered_bind (hupdated _) fun _ _ _ _ _ => trivial

theorem requireAnotherOwner_administered {h : CallHistory} (msg : String) (needed : Bool)
    {Q : CallHistory → Unit → Prop} (hQ : ∀ h', h ⊆ h' → Q h' ()) :
    Administered m state presented Q (Api.requireAnotherOwner msg needed) h := by
  unfold Api.requireAnotherOwner
  split
  · apply administered_ask
    intro owners h' hsub _
    split
    · exact administered_fail _
    · exact fun _ _ => hQ h' hsub
  · exact fun _ _ => hQ h (List.Subset.refl _)

theorem targetUser_administered {h : CallHistory} (id : Id) :
    Administered m state presented (fun h' target => h ⊆ h' ∧
      AuthTold h' (.findUserById id) (some target)) (Api.targetUser id) h := by
  apply administered_ask
  intro found h' hsub htold
  cases found with
  | none => exact administered_fail _
  | some target =>
    rintro _ ⟨⟩
    exact ⟨hsub, htold⟩

theorem deleteUser_administered
    (hpresented : ∀ id, sessionIdFrom state cookies = some id → presented id) (id : Id) :
    Administered m state presented (fun _ _ => True) (Api.deleteUser state cookies id) [] := by
  apply administered_bind (adminUser_administered hpresented)
  rintro admin h₁ ⟨hadmin, hmanage⟩
  split
  · exact administered_fail _
  apply administered_bind (targetUser_administered id)
  rintro target h₂ ⟨hsub₂, htarget⟩
  split
  · exact administered_fail _
  · rename_i hcheck
    have hmay := mayAdminister (hadmin.mono (AuthTold.mono hsub₂)) hmanage htarget hcheck
    apply administered_bind
    · exact requireAnotherOwner_administered _ _ (Q := fun h' _ => h₂ ⊆ h') fun _ hsub => hsub
    · intro _ h₃ hsub₃
      apply administered_put
      · exact hmay.mono (AuthTold.mono hsub₃)
      · exact fun _ _ _ _ _ => trivial

theorem setUserRole_administered
    (hpresented : ∀ id, sessionIdFrom state cookies = some id → presented id) (id : Id)
    (role : InstanceRole) : Administered m state presented (fun _ _ => True)
      (Api.setUserRole state cookies id role) [] := by
  apply administered_bind (adminUser_administered hpresented)
  rintro admin h₁ ⟨hadmin, hmanage⟩
  apply administered_bind (targetUser_administered id)
  rintro target h₂ ⟨hsub₂, htarget⟩
  split
  · exact administered_fail _
  split
  · exact administered_fail _
  · rename_i hlocked hcheck
    have hadmin₂ := hadmin.mono (AuthTold.mono hsub₂)
    simp only [Bool.and_eq_true, Bool.or_eq_true, Bool.not_eq_true', not_and, Bool.not_eq_false]
      at hcheck
    have hrole : (state.adminUsers.apply target).instanceRole = target.instanceRole :=
      if_neg hlocked
    have hmay : MayAdminister state presented (AuthTold h₂) id := by
      apply mayAdminister hadmin₂ hmanage htarget
      rw [hrole]
      cases hadminOwner : admin.instanceRole.isOwner with
      | true => simp
      | false =>
        intro howner
        simp only [Bool.not_false, Bool.and_true] at howner
        exact absurd (hcheck (.inl howner)) (by simp [hadminOwner])
    apply administered_bind
    · exact requireAnotherOwner_administered _ _ (Q := fun h' _ => h₂ ⊆ h') fun _ hsub => hsub
    · intro _ h₃ hsub₃
      apply administered_put
      · refine ⟨hmay.mono (AuthTold.mono hsub₃), ?_⟩
        rintro rfl
        exact ⟨admin, hadmin₂.mono (AuthTold.mono hsub₃), hcheck (.inr rfl)⟩
      · exact fun _ _ _ _ _ => trivial

end Administration

theorem Request.guarded (request : Request) :
    Guarded H app presented (request.handler app cookies) h := by
  cases request with
  | createProject req draw => exact guarded_createProject hpresented req draw
  | listProjects => exact guarded_listProjects hpresented
  | getProject id => exact guarded_getProject hpresented id
  | updateProject id req => exact guarded_updateProject hpresented id req
  | changeTeam id teamId => exact guarded_changeTeam hpresented id teamId
  | deleteProject id => exact guarded_deleteProject hpresented id
  | dsn id => exact guarded_dsn hpresented id
  | sdkSetup id => exact guarded_sdkSetup hpresented id
  | muteProject id muted => exact guarded_muteProject hpresented id muted
  | regenerateDsn id newKey => exact guarded_regenerateDsn hpresented id newKey
  | favorite id favorited => exact guarded_favorite hpresented id favorited
  | listIssues id q => exact guarded_listIssues hpresented id q
  | getIssue id => exact guarded_getIssue hpresented id
  | listEvents id limit => exact guarded_listEvents hpresented id limit
  | setStatus id status => exact guarded_setStatus hpresented id status
  | muteIssue id req => exact guarded_muteIssue hpresented id req
  | updateFingerprint id fingerprint => exact guarded_updateFingerprint hpresented id fingerprint
  | getEvent id => exact guarded_getEvent hpresented id
  | listTeams => exact guarded_listTeams hpresented
  | createTeam name => exact guarded_createTeam hpresented name
  | getTeam id => exact guarded_getTeam hpresented id
  | updateTeam id name => exact guarded_updateTeam hpresented id name
  | deleteTeam id moveProjectsTo => exact guarded_deleteTeam hpresented id moveProjectsTo
  | addMember id userId role => exact guarded_addMember hpresented id userId role
  | setMemberRole id userId role => exact guarded_setMemberRole hpresented id userId role
  | removeMember id userId => exact guarded_removeMember hpresented id userId
  | listInvites id => exact guarded_listInvites hpresented id
  | createInvite id role email token => exact guarded_createInvite hpresented id role email token
  | revokeInvite id token => exact guarded_revokeInvite hpresented id token
  | listUsers => exact guarded_listUsers hpresented
  | approveUser id => exact guarded_administer (approveUser_administered hpresented id)
  | deleteUser id => exact guarded_administer (deleteUser_administered hpresented id)
  | setUserRole id role => exact guarded_administer (setUserRole_administered hpresented id role)

end Handlers

/-- What a request has done so far. -/
structure Mediated (H : SiteHost) (app : SiteState) (r : Incoming)
    (th : Thread siteCalls Error Server Response) : Prop where
  /-- Each call was answered by the server, or failed on its way. -/
  sound : ∀ e ∈ th.history, e.Sound H.site
  /-- Each call was permitted by the replies before it. -/
  permitted : ∀ h₁ e h₂, th.history = h₁ ++ e :: h₂ →
    Permits app.toAppState (r.Presents app) h₁ e.call
  /-- The response shows what the replies have warranted. -/
  warranted : ∀ response, th.rest = .ret response →
    Warranted app.toAppState (r.Presents app) th.history response

/-- In every run, with whatever else happens on the server, each request is mediated. -/
theorem complete_mediation (H : SiteHost) (app : SiteState) (requests : List Incoming) (s : Server)
    (turns : List (Turn siteCalls Error)) :
    List.Forall₂ (Mediated H app) requests ((serve app requests s).run H.site turns).threads := by
  have hall := (Pool.run_sound (m := H.site) (I := fun _ => True) (fun _ _ _ => trivial) trivial
    (Pool.start_sound (requests.map (Incoming.handler app)) s) turns).2
  rw [List.forall₂_map_left_iff] at hall
  apply hall.imp
  intro r th hsound
  have hguarded : Guarded H app (r.Presents app) (r.handler app) [] :=
    r.request.guarded fun _ hid => hid
  obtain ⟨hpermitted, hrest⟩ := hsound.permitted hguarded
  constructor
  · exact fun e he => (hsound.calls e he).2
  · exact hpermitted
  · intro response hret
    rw [hret] at hrest
    exact hrest

end Soika.Site
