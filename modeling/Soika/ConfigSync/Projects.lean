import Soika.ConfigSync.Teams

/-! # What the synchronization of a project does

A declared project has the declared columns afterwards. One that is not declared is marked
or deleted, with its events in batches and the rest by cascade.
-/

namespace Soika

open Table

namespace Session

structure OnlyProjects (s s' : Session) : Prop where
  teams : s'.db.toTeamTables = s.db.toTeamTables
  users : s'.db.toUserTables = s.db.toUserTables
  settings : s'.db.notificationSettings = s.db.notificationSettings

variable {s s' s'' : Session} {T : ProjectTables}

theorem OnlyProjects.refl (s : Session) : OnlyProjects s s := ⟨rfl, rfl, rfl⟩

theorem OnlyProjects.trans (h : OnlyProjects s s') (h' : OnlyProjects s' s'') :
    OnlyProjects s s'' :=
  ⟨h'.teams.trans h.teams, h'.users.trans h.users, h'.settings.trans h.settings⟩

theorem Sound.withProjects (h : s.Sound) (hT : T.Consistent)
    (hteam : ∀ p ∈ T.projects, s.db.HasTeam p.teamId) (hfresh : ∀ p ∈ T.projects, p.id < s.db.nextId) :
    (s.withProjects T).Sound where
  db := { h.db with
    projects := hT
    projectTeam := hteam
    projectFresh := hfresh }
  report := h.report

/-- Rows that are changed in place keep the constraints when they refer to a team. -/
theorem Sound.modifyProject (hs : s.Sound) {id : Id} {f : ProjectRow → ProjectRow}
    (hid : ∀ p, (f p).id = p.id) (hslug : ∀ p, (f p).slug = p.slug)
    (hteam : ∀ p ∈ s.db.projects, s.db.HasTeam (f p).teamId) :
    (s.withProjects (s.db.modifyProject id f)).Sound := by
  apply hs.withProjects (hs.db.projects.modifyProject hid hslug)
  · intro p hp
    obtain ⟨q, hq, rfl⟩ := mem_modify.mp hp
    split
    · exact hteam q hq
    · exact hs.db.projectTeam q hq
  · intro p hp
    obtain ⟨q, hq, rfl⟩ := mem_modify.mp hp
    have := hs.db.projectFresh q hq
    split
    · rwa [hid]
    · exact this

theorem not_hasProject_nextId {d : Directory} (h : d.Consistent) : ¬ d.HasProject d.nextId := by
  rintro ⟨p, hp, heq⟩
  exact (h.projectFresh p hp).ne heq

theorem Sound.insertProject (hs : s.Sound) {row : ProjectRow} (hid : row.id = s.db.nextId)
    (hslug : s.db.projectSlugged row.slug = none) (hteam : s.db.HasTeam row.teamId) :
    ({ s with db := { s.db with
      toProjectTables := s.db.addProject row, nextId := s.db.nextId + 1 } } : Session).Sound where
  db := {
    teams := hs.db.teams
    projects := hs.db.projects.addProject (fun p hp => hid ▸ (hs.db.projectFresh p hp).ne) hslug
    projectTeam := forall_mem_snoc hs.db.projectTeam hteam
    userIds := hs.db.userIds
    teamFresh := fun t ht => Nat.lt_succ_of_lt (hs.db.teamFresh t ht)
    projectFresh := forall_mem_snoc (fun p hp => Nat.lt_succ_of_lt (hs.db.projectFresh p hp))
      (hid ▸ Nat.lt_succ_self _)
    userFresh := fun u hu => Nat.lt_succ_of_lt (hs.db.userFresh u hu) }
  report := hs.report

end Session

namespace ConfigSync

open Session

variable {P : Platform} {R : Error → Prop} {s : Session}

abbrev projectViews (s : Session) (slug : String) : Option ProjectView :=
  s.db.toProjectTables.view slug

/-- Issues and events only leave, and an event only when what `gone` names owned it. -/
structure EventsKept (gone : Id → Prop) (T T' : ProjectTables) : Prop where
  issues : ∀ i ∈ T'.issues, i ∈ T.issues
  events : ∀ e ∈ T'.events, e ∈ T.events
  kept : ∀ e ∈ T.events, e ∉ T'.events → ∃ id, gone id ∧ T.EventOf id e

theorem EventsKept.refl (gone : Id → Prop) (T : ProjectTables) : EventsKept gone T T :=
  ⟨fun _ h => h, fun _ h => h, fun _ h h' => absurd h h'⟩

theorem EventsKept.trans {gone : Id → Prop} {T T' T'' : ProjectTables} (h : EventsKept gone T T')
    (h' : EventsKept gone T' T'') : EventsKept gone T T'' where
  issues i hi := h.issues i (h'.issues i hi)
  events e he := h.events e (h'.events e he)
  kept e he hgone := by
    by_cases hmid : e ∈ T'.events
    · obtain ⟨id, hid, howner⟩ := h'.kept e hmid hgone
      exact ⟨id, hid, howner.imp_right fun ⟨i, hi, hie⟩ => ⟨i, h.issues i hi, hie⟩⟩
    · exact h.kept e he hmid

theorem EventsKept.of_eq {gone : Id → Prop} {T T' : ProjectTables} (hissues : T'.issues = T.issues)
    (hevents : T'.events = T.events) : EventsKept gone T T' :=
  ⟨fun _ hi => hissues ▸ hi, fun _ he => hevents ▸ he, fun _ he hne => absurd (hevents ▸ he) hne⟩

def declaredInterval (p : ProjectConfig) : Option RefreshInterval :=
  p.alertmanagerIntervalSeconds.bind fun seconds =>
    if h : 10 ≤ seconds ∧ seconds ≤ 86400 then some ⟨seconds, h⟩ else none

def declaredFields (p : ProjectConfig) (retention : ℤ) (teamId : Id) : ProjectFields :=
  ⟨p.name, teamId, p.retentionEvents.getD retention, p.retentionDays.getD 0, p.webhookUrl,
    declaredInterval p, p.alertmanagerSeverity⟩

theorem intervalColumn_declared {p : ProjectConfig}
    (h : ∀ i, p.alertmanagerIntervalSeconds = some i → 10 ≤ i ∧ i ≤ 86400) :
    intervalColumn (p.alertmanagerIntervalSeconds.getD 0) = .ok (declaredInterval p) := by
  unfold declaredInterval
  cases hi : p.alertmanagerIntervalSeconds with
  | none => rfl
  | some i =>
    have hrange := h i hi
    rw [Option.getD_some, intervalColumn, if_neg (by omega), dif_pos hrange, Option.bind_some,
      dif_pos hrange]

def projectAction (c : ProjectFields) (row : ProjectRow) : SyncActionKind :=
  planPresent true row.orphanedAt.isSome (ProjectFields.of row ≠ c)

def declaredRow (c : ProjectFields) (now : Timestamp) (row : ProjectRow) : ProjectRow :=
  if projectAction c row ≠ .unchanged then c.refresh now row else row

def projectEntries (c : ProjectFields) (slug : String) (old : Option ProjectView) :
    List SyncAction :=
  [⟨"project", slug, old.elim .create fun v => projectAction c v.row⟩]

/-- The project is there with the columns; a new one has some id and codes, and owns nothing. -/
def ProjectSynced (c : ProjectFields) (slug : String) (now : Timestamp)
    (old new : Option ProjectView) : Prop :=
  match old with
  | some v => new = some { v with row := declaredRow c now v.row }
  | none => ∃ id shortId dsn, new = some ⟨c.row slug now id shortId dsn, [], []⟩

theorem slug_mem_view {T : ProjectTables} {slug : String} {v : ProjectView} (h : T.view slug = some v) :
    T.projectSlugged slug = some v.row ∧ v = T.viewOf v.row := by
  obtain ⟨row, hrow, rfl⟩ := Option.map_eq_some_iff.mp h
  exact ⟨hrow, rfl⟩

theorem view_of_slugged {T : ProjectTables} {slug : String} {row : ProjectRow}
    (h : T.projectSlugged slug = some row) : T.view slug = some (T.viewOf row) := by
  rw [ProjectTables.view, h, Option.map_some]

theorem view_of_not_slugged {T : ProjectTables} {slug : String} (h : T.projectSlugged slug = none) :
    T.view slug = none := by
  rw [ProjectTables.view, h, Option.map_none]

theorem changes_modifyProject (hs : s.Sound) {slug : String} {row : ProjectRow}
    (hrow : s.db.projectSlugged slug = some row) {f : ProjectRow → ProjectRow}
    (hid : ∀ p, (f p).id = p.id) (hslug : ∀ p, (f p).slug = p.slug) {entity : String}
    {action : SyncActionKind} {Post : Option ProjectView → Option ProjectView → Prop}
    {entries : Option ProjectView → List SyncAction}
    (hpost : Post (some (s.db.toProjectTables.viewOf row))
      (some { s.db.toProjectTables.viewOf row with row := f row }))
    (hentries : entries (some (s.db.toProjectTables.viewOf row)) = [⟨entity, slug, action⟩]) :
    Transaction.Changes projectViews actionsOf slug Post entries s
      { s.withProjects (s.db.modifyProject row.id f) with
        report := s.report.record entity slug action } := by
  have hview := hs.db.projects.view_modifyProject hrow hslug (hid row)
  refine ⟨?_, fun l hl => (hview l).trans (if_neg hl), ?_⟩
  · rw [show projectViews s slug = _ from view_of_slugged hrow]
    rw [show projectViews _ slug = _ from (hview slug).trans (if_pos rfl)]
    exact hpost
  · rw [show projectViews s slug = _ from view_of_slugged hrow, hentries]
    exact SyncReport.record_actions ..

structure ProjectFrame (gone : Id → Prop) (s s' : Session) : Prop where
  sound : s'.Sound
  only : s.OnlyProjects s'
  events : EventsKept gone s.db.toProjectTables s'.db.toProjectTables

theorem ProjectFrame.refl (hs : s.Sound) (gone : Id → Prop) : ProjectFrame gone s s :=
  ⟨hs, .refl s, .refl gone _⟩

theorem ProjectFrame.trans {gone : Id → Prop} {s' s'' : Session} (h : ProjectFrame gone s s')
    (h' : ProjectFrame gone s' s'') : ProjectFrame gone s s'' :=
  ⟨h'.sound, h.only.trans h'.only, h.events.trans h'.events⟩

theorem yields_insertProject {row : Id → String → String → ProjectRow} {Q : Unit → Session → Prop}
    (hclash : R (.db P.uniqueViolation))
    (h : ∀ shortId dsn, Q () { s with db := { s.db with
      toProjectTables := s.db.addProject (row s.db.nextId shortId dsn)
      nextId := s.db.nextId + 1 } }) : Yields R (insertProject P row) Q s := by
  refine yields_execute (fun w u d hd => ?_) fun w e hd => ?_
  · dsimp only at hd
    split at hd
    · cases hd
    · cases hd
      exact h w.shortId w.dsn
  · dsimp only at hd
    split at hd
    · cases hd
      exact hclash
    · cases hd

theorem upsertProject_yields (hs : s.Sound) {slug : String} {c : ProjectFields} {now : Timestamp}
    (hteam : s.db.HasTeam c.teamId)
    (hclash : s.db.projectSlugged slug = none → R (.db P.uniqueViolation)) :
    Yields R (upsertProject P slug c (s.db.projectSlugged slug) now) (fun _ s' =>
      ProjectFrame (fun _ => False) s s' ∧ Transaction.Changes projectViews actionsOf slug
        (ProjectSynced c slug now) (projectEntries c slug) s s') s := by
  unfold upsertProject
  cases hrow : s.db.projectSlugged slug with
  | some row =>
    have hview : projectViews s slug = _ := view_of_slugged hrow
    refine .seq (.when (fun haction => yields_updateProjects (yields_record ⟨?_, ?_⟩))
      fun haction => yields_record ⟨?_, ?_⟩)
    · refine ⟨(hs.modifyProject (f := c.refresh now) (fun _ => rfl) (fun _ => rfl)
        fun _ _ => hteam).record _ _ _, ⟨rfl, rfl, rfl⟩, .of_eq rfl rfl⟩
    · refine changes_modifyProject hs hrow (f := c.refresh now) (fun _ => rfl) (fun _ => rfl) ?_ rfl
      exact congrArg (fun r => some { s.db.toProjectTables.viewOf row with row := r })
        (if_pos haction).symm
    · exact ⟨hs.record _ _ _, ⟨rfl, rfl, rfl⟩, .of_eq rfl rfl⟩
    · have hsame : declaredRow c now row = row := if_neg haction
      refine ⟨?_, fun _ _ => rfl, ?_⟩
      · rw [hview]
        change _ = some { s.db.toProjectTables.viewOf row with row := declaredRow c now row }
        rw [hsame]
        rfl
      · rw [hview]
        exact SyncReport.record_actions ..
  | none =>
    have hview : projectViews s slug = none := view_of_not_slugged hrow
    refine .seq (yields_insertProject (hclash hrow) fun shortId dsn => yields_record ⟨?_, ?_⟩)
    · exact ⟨(hs.insertProject rfl hrow hteam).record _ _ _, ⟨rfl, rfl, rfl⟩, .of_eq rfl rfl⟩
    · let row := c.row slug now s.db.nextId shortId dsn
      have hnew : ∀ l, (s.db.addProject row).view l = if l = slug then some ⟨row, [], []⟩ else _ :=
        hs.db.projects.view_addProject (not_hasProject_nextId hs.db) hrow
      refine ⟨?_, fun l hl => (hnew l).trans (if_neg hl), ?_⟩
      · rw [hview]
        exact ⟨s.db.nextId, shortId, dsn, (hnew slug).trans (if_pos rfl)⟩
      · rw [hview]
        exact SyncReport.record_actions ..

/-- The columns of a declared project, whose team is looked up. -/
def fieldsIn (T : TeamTables) (p : ProjectConfig) (retention : ℤ) : ProjectFields :=
  declaredFields p retention ((T.teamNamed p.team).elim 0 TeamRow.id)

theorem syncProject_yields (hs : s.Sound) {p : ProjectConfig} {retention : ℤ} {now : Timestamp}
    (hteam : ∃ team, s.db.teamNamed p.team = some team)
    (hinterval : ∀ i, p.alertmanagerIntervalSeconds = some i → 10 ≤ i ∧ i ≤ 86400)
    (hclash : s.db.projectSlugged p.slug = none → R (.db P.uniqueViolation)) :
    Yields R (syncProject P p retention now) (fun _ s' => ProjectFrame (fun _ => False) s s' ∧
      Transaction.Changes projectViews actionsOf p.slug
        (ProjectSynced (fieldsIn s.db.toTeamTables p retention) p.slug now)
        (projectEntries (fieldsIn s.db.toTeamTables p retention) p.slug) s s') s := by
  obtain ⟨team, hteam⟩ := hteam
  have hfields : fieldsIn s.db.toTeamTables p retention = declaredFields p retention team.id := by
    rw [fieldsIn, hteam, Option.elim_some]
  rw [hfields]
  refine .seq (yields_fetch ?_)
  rw [hteam]
  refine .seq (yields_fetch (.seq ?_))
  rw [intervalColumn_declared hinterval]
  exact .ret (upsertProject_yields hs (TeamTables.HasTeam.of_named hteam) hclash)

theorem slugged_congr {T T' : ProjectTables} {slug : String} (h : T'.view slug = T.view slug) :
    T'.projectSlugged slug = T.projectSlugged slug := by
  cases hrow : T.projectSlugged slug with
  | none =>
    rw [view_of_not_slugged hrow] at h
    exact Option.map_eq_none_iff.mp h
  | some row =>
    rw [view_of_slugged hrow] at h
    exact (slug_mem_view h).1

theorem syncDeclared_yields (hs : s.Sound) {ps : List ProjectConfig} {retention : ℤ}
    {now : Timestamp} (hslugs : (ps.map ProjectConfig.slug).Nodup)
    (hteams : ∀ p ∈ ps, ∃ team, s.db.teamNamed p.team = some team)
    (hintervals : ∀ p ∈ ps, ∀ i, p.alertmanagerIntervalSeconds = some i → 10 ≤ i ∧ i ≤ 86400)
    (hclash : ∀ p ∈ ps, s.db.projectSlugged p.slug = none → R (.db P.uniqueViolation)) :
    Yields R (Transaction.each (fun p => syncProject P p retention now) ps) (fun _ s' =>
      ProjectFrame (fun _ => False) s s' ∧
        Transaction.ChangesEach projectViews actionsOf ProjectConfig.slug
          (fun p => ProjectSynced (fieldsIn s.db.toTeamTables p retention) p.slug now)
          (fun p => projectEntries (fieldsIn s.db.toTeamTables p retention) p.slug) ps s s') s := by
  refine .foldKey projectViews actionsOf ProjectConfig.slug _ _ hslugs (.refl hs _) fun _ p hp t ht hview => ?_
  have hteams' : t.db.toTeamTables = s.db.toTeamTables := ht.only.teams
  have hslugged : t.db.projectSlugged p.slug = s.db.projectSlugged p.slug := slugged_congr hview
  rw [← hteams']
  refine (syncProject_yields ht.sound (hteams' ▸ hteams p hp) (hintervals p hp) fun hnone =>
    hclash p hp (hslugged ▸ hnone)).mono fun _ t' h => ?_
  exact ⟨ht.trans h.1, h.2⟩

structure EventsOnly (id : Id) (s t : Session) : Prop where
  rows : ∃ es, t = s.withProjects { s.db.toProjectTables with events := es }
  sound : t.Sound
  events : ∀ e ∈ t.db.events, e ∈ s.db.events
  kept : ∀ e ∈ s.db.events, e.projectId ≠ id → e ∈ t.db.events

theorem EventsOnly.deleteEvents {id : Id} {t : Session} (h : EventsOnly id s t)
    {ids : List Id} (hids : ∀ e ∈ s.db.events, e.id ∈ ids → e.projectId = id) :
    EventsOnly id s (t.withProjects (t.db.deleteEvents ids)) := by
  obtain ⟨⟨es, rfl⟩, hsound, hevents, hkept⟩ := h
  refine ⟨⟨_, rfl⟩, hsound.withProjects (hsound.db.projects.deleteEvents ids)
    hsound.db.projectTeam hsound.db.projectFresh, ?_, ?_⟩
  · exact fun e he => hevents e (List.mem_of_mem_filter he)
  · intro e he hne
    refine List.mem_filter.mpr ⟨hkept e he hne, ?_⟩
    simpa using fun hmem => hne (hids e he hmem)

theorem deleteEventBatch_yields (hs : s.Sound) {id : Id} {batch : ℕ} (hbatch : 1 ≤ batch)
    {t : Session} (ht : EventsOnly id s t) :
    Yields R (deleteEventBatch batch id) (fun again t' => EventsOnly id s t' ∧
      (again = true → t'.db.events.length < t.db.events.length) ∧
      (again = false → ∀ e ∈ t'.db.events, e.projectId ≠ id)) t := by
  apply yields_execute
  · intro w again d hd
    have horder := w.order_perm (Table.select Event.projectId id t.db.events)
    generalize w.order (Table.select Event.projectId id t.db.events) = chosen at hd horder
    cases hd
    have hchosen : ∀ e ∈ chosen, e ∈ t.db.events ∧ e.projectId = id :=
      fun e he => mem_select.mp (horder.mem_iff.mp he)
    refine ⟨ht.deleteEvents fun e he hmem => ?_, fun hagain => ?_, fun hagain e he heq => ?_⟩
    · obtain ⟨e', he', hid⟩ := List.mem_map.mp hmem
      obtain ⟨he', hproject⟩ := hchosen e' (List.mem_of_mem_take he')
      rw [← hs.db.projects.eventIds.eq_of_key (ht.events e' he') he hid]
      exact hproject
    · have hsome := of_decide_eq_true hagain
      obtain ⟨e, he⟩ := List.exists_mem_of_length_pos (Nat.pos_of_ne_zero hsome)
      obtain ⟨he, hmem⟩ := List.mem_filter.mp he
      exact List.length_filter_lt_length_iff_exists.mpr
        ⟨e, he, by simpa only [decide_not, Bool.not_eq_true', decide_eq_false_iff_not, not_not,
          decide_eq_true_eq] using hmem⟩
    · have hnone := not_not.mp (of_decide_eq_false hagain)
      -- one event of the project would be in the batch
      obtain ⟨he, -⟩ := List.mem_filter.mp he
      have hmem : e ∈ chosen := horder.mem_iff.mpr (mem_select.mpr ⟨he, heq⟩)
      obtain ⟨first, rest, rfl⟩ := List.exists_cons_of_ne_nil (List.ne_nil_of_mem hmem)
      have hfirst : first ∈ (first :: rest).take batch := by
        rw [List.take_cons hbatch]
        exact List.mem_cons_self
      rw [List.length_eq_zero_iff, List.filter_eq_nil_iff] at hnone
      exact hnone first (hchosen first List.mem_cons_self).1
        (decide_eq_true (List.mem_map_of_mem hfirst))
  · intro w e hd
    cases hd

theorem deleteProjectEvents_yields (hs : s.Sound) (write : WritePolicy) (id : Id) :
    Yields R (deleteProjectEvents write id) (fun _ t =>
      EventsOnly id s t ∧ ∀ e ∈ t.db.events, e.projectId ≠ id) s := by
  intro ws hws
  refine Transaction.Ensures.repeatWhile (fun t : Session => t.db.events.length)
    (fun t ht => deleteEventBatch_yields hs write.deleteBatch_pos ht) ?_ (Nat.lt_succ_self _) ws hws
  exact ⟨⟨s.db.events, rfl⟩, hs, fun _ h => h, fun _ h _ => h⟩

end ConfigSync

end Soika
