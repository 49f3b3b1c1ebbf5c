import Soika.ConfigSync.Projects

/-! # What pruning does

An entity that the file does not declare is marked, or deleted with all that belongs to it.
The plan has seen to it that no project refers to a team that is deleted.
-/

namespace Soika

open Table

namespace ConfigSync

open Session

variable {P : Platform} {R : Error → Prop} {s : Session} {write : WritePolicy}
  {policy : OrphanPolicy} {now : Timestamp}

/-- What is reported about an entity that is not declared. -/
def prunedEntries (entity key : String) (policy : OrphanPolicy) (orphaned : Bool) :
    List SyncAction :=
  match policy with
  | .readonly => if orphaned then [] else [⟨entity, key, .orphan⟩]
  | .delete => [⟨entity, key, .delete⟩]

def orphanedProject (now : Timestamp) (row : ProjectRow) : ProjectRow :=
  if row.orphanedAt.isSome then row else { row with orphanedAt := some now }

def prunedProject (policy : OrphanPolicy) (now : Timestamp) (old : Option ProjectView) :
    Option ProjectView :=
  match policy with
  | .readonly => old.map fun v => { v with row := orphanedProject now v.row }
  | .delete => none

theorem ProjectFrame.mono {gone gone' : Id → Prop} {s' : Session} (h : ProjectFrame gone s s')
    (hgone : ∀ id, gone id → gone' id) : ProjectFrame gone' s s' :=
  { h with events := { h.events with
    kept := fun e he hne => by
      obtain ⟨id, hid, howner⟩ := h.events.kept e he hne
      exact ⟨id, hgone id hid, howner⟩ } }

theorem markOrphanProject_yields (hs : s.Sound) {row : ProjectRow}
    (hrow : s.db.projectSlugged row.slug = some row) (gone : Id → Prop) :
    Yields R (markOrphanProject row now) (fun _ s' => ProjectFrame gone s s' ∧
      Transaction.Changes projectViews actionsOf row.slug
        (fun old new => new = prunedProject .readonly now old)
        (fun _ => prunedEntries "project" row.slug .readonly row.orphanedAt.isSome) s s') s := by
  have hview : projectViews s row.slug = _ := view_of_slugged hrow
  unfold markOrphanProject
  split
  · rename_i horphaned
    apply Transaction.Ensures.ret
    refine ⟨.refl hs gone, ?_, fun _ _ => rfl, ?_⟩
    · have hsame : orphanedProject now row = row := if_pos horphaned
      rw [hview, prunedProject, Option.map_some]
      change _ = some { s.db.toProjectTables.viewOf row with row := orphanedProject now row }
      rw [hsame]
      rfl
    · rw [prunedEntries, if_pos horphaned, List.append_nil]
  · rename_i horphaned
    let mark (p : ProjectRow) : ProjectRow := { p with orphanedAt := some now }
    have hsound : (s.withProjects (s.db.modifyProject row.id mark)).Sound :=
      hs.modifyProject (fun _ => rfl) (fun _ => rfl) hs.db.projectTeam
    refine .seq (yields_updateProjects (yields_record ⟨?_, ?_⟩))
    · exact ⟨hsound.record _ _ _, ⟨rfl, rfl, rfl⟩, .of_eq rfl rfl⟩
    · refine changes_modifyProject hs hrow (f := mark) (fun _ => rfl) (fun _ => rfl) ?_ ?_
      · rw [prunedProject, Option.map_some]
        exact congrArg (fun r => some { s.db.toProjectTables.viewOf row with row := r })
          (if_neg horphaned).symm
      · exact if_neg horphaned

theorem removeProject_frame (hs : s.Sound) {t : Session} {id : Id} (ht : EventsOnly id s t) :
    ProjectFrame (fun i => i = id) s (t.withProjects (t.db.removeProject id)) := by
  obtain ⟨⟨es, rfl⟩, hsound, hevents, hkept⟩ := ht
  refine ⟨hsound.withProjects (hsound.db.projects.removeProject id) (fun p hp => ?_)
    (fun p hp => ?_), ⟨rfl, rfl, rfl⟩, ?_⟩
  · exact hs.db.projectTeam p (mem_remove.mp hp).1
  · exact hs.db.projectFresh p (mem_remove.mp hp).1
  · constructor
    · exact fun i hi => (mem_remove.mp hi).1
    · exact fun e he => hevents e (List.mem_filter.mp he).1
    · intro e he hgone
      by_cases hproject : e.projectId = id
      · exact ⟨id, rfl, .inl hproject⟩
      · have hstays := hkept e he hproject
        have howner : ¬ ¬ s.db.toProjectTables.EventOf id e := by
          intro hne
          exact hgone (List.mem_filter.mpr ⟨hstays, decide_eq_true hne⟩)
        exact ⟨id, rfl, not_not.mp howner⟩

theorem pruneProject_yields (hs : s.Sound) {row : ProjectRow}
    (hrow : s.db.projectSlugged row.slug = some row) :
    Yields R (pruneProject write row policy now) (fun _ s' =>
      ProjectFrame (fun id => policy = .delete ∧ id = row.id) s s' ∧
        Transaction.Changes projectViews actionsOf row.slug
          (fun old new => new = prunedProject policy now old)
          (fun _ => prunedEntries "project" row.slug policy row.orphanedAt.isSome) s s') s := by
  cases policy with
  | readonly => exact markOrphanProject_yields hs hrow _
  | delete =>
    refine .bind (deleteProjectEvents_yields hs write row.id) fun _ t ht => ?_
    have hframe := removeProject_frame hs ht.1
    obtain ⟨⟨es, rfl⟩, hsound, -, -⟩ := ht.1
    have hview : ∀ l, (s.db.removeProject row.id).view l = if l = row.slug then none else _ :=
      hs.db.projects.view_removeProject hrow
    refine .seq (yields_updateProjects (yields_record ⟨?_, ?_⟩))
    · refine .mono ?_ fun id hid => ⟨rfl, hid⟩
      exact ⟨hframe.sound.record _ _ _, ⟨rfl, rfl, rfl⟩, hframe.events⟩
    · refine ⟨(hview row.slug).trans (if_pos rfl), fun l hl => (hview l).trans (if_neg hl), ?_⟩
      exact SyncReport.record_actions ..

/-- The file does not declare the project. -/
abbrev Undeclared (projects : List ProjectConfig) (slug : String) : Prop :=
  ∀ p ∈ projects, p.slug ≠ slug

theorem any_slug_eq_false {projects : List ProjectConfig} {slug : String} :
    (projects.any fun p => p.slug = slug) = false ↔ Undeclared projects slug := by
  simp [Undeclared]

def undeclaredProjects (projects : List ProjectConfig) (d : Directory) : List ProjectRow :=
  d.projects.filter fun row => !projects.any fun p => p.slug = row.slug

def GoneProject (projects : List ProjectConfig) (policy : OrphanPolicy) (d : Directory) (id : Id) :
    Prop :=
  policy = .delete ∧ ∃ row ∈ d.projects, Undeclared projects row.slug ∧ row.id = id

theorem mem_projects_iff (hs : s.Sound) {row : ProjectRow} :
    row ∈ s.db.projects ↔ s.db.projectSlugged row.slug = some row :=
  ⟨hs.db.projects.projectSlugged_of_mem, fun h => (ProjectTables.projectSlugged_mem h).1⟩

/-- The loop over all projects, which passes over the declared ones. -/
theorem prunes_yields (hs : s.Sound) {projects : List ProjectConfig} {rows : List ProjectRow}
    (hrows : rows.Perm s.db.projects) :
    Yields R (Transaction.each (fun row : ProjectRow =>
      if projects.any fun p => p.slug = row.slug then pure ()
      else pruneProject write row policy now) rows) (fun _ s' =>
        ProjectFrame (GoneProject projects policy s.db) s s' ∧
          Transaction.ChangesEach projectViews actionsOf ProjectRow.slug
            (fun row old new => new = if Undeclared projects row.slug
              then prunedProject policy now old else old)
            (fun row _ => if Undeclared projects row.slug
              then prunedEntries "project" row.slug policy row.orphanedAt.isSome else [])
            rows s s') s := by
  have hkeys : (rows.map ProjectRow.slug).Nodup :=
    (hrows.map ProjectRow.slug).nodup_iff.mpr hs.db.projects.slugs
  refine .foldKey projectViews actionsOf ProjectRow.slug _ _ hkeys (.refl hs _) ?_
  intro _ row hrow t ht hview
  have hmem := hrows.mem_iff.mp hrow
  by_cases hundeclared : Undeclared projects row.slug
  · have hslug : t.db.projectSlugged row.slug = some row :=
      (slugged_congr hview).trans ((mem_projects_iff hs).mp hmem)
    simp only [any_slug_eq_false.mpr hundeclared, if_pos hundeclared, Bool.false_eq_true, if_false]
    refine (pruneProject_yields ht.sound hslug).mono fun _ t' h => ⟨ht.trans (h.1.mono ?_), h.2⟩
    rintro id ⟨hpolicy, rfl⟩
    exact ⟨hpolicy, row, hmem, hundeclared, rfl⟩
  · have hdeclared : (projects.any fun p => p.slug = row.slug) = true := by
      rwa [← Bool.not_eq_false, any_slug_eq_false]
    simp only [hdeclared, if_neg hundeclared, if_true]
    exact .ret ⟨ht, rfl, fun _ _ => rfl, (List.append_nil _).symm⟩

structure ProjectsSynced (projects : List ProjectConfig) (policy : OrphanPolicy) (retention : ℤ)
    (now : Timestamp) (s s' : Session) : Prop where
  frame : ProjectFrame (GoneProject projects policy s.db) s s'
  declared : ∀ p ∈ projects, ProjectSynced (fieldsIn s.db.toTeamTables p retention) p.slug now
    (projectViews s p.slug) (projectViews s' p.slug)
  others : ∀ slug, Undeclared projects slug →
    projectViews s' slug = prunedProject policy now (projectViews s slug)
  actions : ∃ rows : List ProjectRow, rows.Perm (undeclaredProjects projects s.db) ∧
    actionsOf s' = actionsOf s ++
      projects.flatMap (fun p => projectEntries (fieldsIn s.db.toTeamTables p retention) p.slug
        (projectViews s p.slug)) ++
      rows.flatMap fun row =>
        prunedEntries "project" row.slug policy row.orphanedAt.isSome

/-- The projects that are not declared stay as they are while the declared ones are written. -/
theorem undeclaredProjects_perm {s' : Session} {projects : List ProjectConfig} (hs : s.Sound)
    (hs' : s'.Sound)
    (hsame : ∀ slug, Undeclared projects slug → projectViews s' slug = projectViews s slug) :
    (undeclaredProjects projects s'.db).Perm (undeclaredProjects projects s.db) := by
  have hnodup : ∀ {t : Session}, t.Sound → (undeclaredProjects projects t.db).Nodup :=
    fun ht => (List.Nodup.of_map _ ht.db.projects.slugs).filter _
  refine (List.perm_ext_iff_of_nodup (hnodup hs') (hnodup hs)).mpr fun row => ?_
  simp only [undeclaredProjects, List.mem_filter, Bool.not_eq_true', any_slug_eq_false,
    mem_projects_iff hs', mem_projects_iff hs]
  constructor
  · rintro ⟨hrow, hundeclared⟩
    exact ⟨(slugged_congr (hsame _ hundeclared)).symm.trans hrow, hundeclared⟩
  · rintro ⟨hrow, hundeclared⟩
    exact ⟨(slugged_congr (hsame _ hundeclared)).trans hrow, hundeclared⟩

theorem flatMap_ite {α β : Type} (c : α → Prop) [DecidablePred c] (f : α → List β) (xs : List α) :
    (xs.flatMap fun x => if c x then f x else []) = (xs.filter c).flatMap f := by
  induction xs with
  | nil => rfl
  | cons x xs ih =>
    rw [List.flatMap_cons, ih, List.filter_cons]
    by_cases hx : c x
    · simp [hx]
    · simp [hx]

theorem syncProjects_yields (hs : s.Sound) {projects : List ProjectConfig} {retention : ℤ}
    (hslugs : (projects.map ProjectConfig.slug).Nodup)
    (hteams : ∀ p ∈ projects, ∃ team, s.db.teamNamed p.team = some team)
    (hintervals : ∀ p ∈ projects, ∀ i, p.alertmanagerIntervalSeconds = some i → 10 ≤ i ∧ i ≤ 86400)
    (hclash : R (.db P.uniqueViolation)) :
    Yields R (syncProjects P write projects policy retention now)
      (fun _ s' => ProjectsSynced projects policy retention now s s') s := by
  refine .bind (syncDeclared_yields hs hslugs hteams hintervals fun _ _ _ => hclash)
    fun _ s₁ h₁ => .seq (yields_select fun rows hrows => ?_)
  refine (prunes_yields h₁.1.sound hrows).mono fun _ s₂ h₂ => ?_
  have hsame : ∀ slug, Undeclared projects slug → projectViews s₁ slug = projectViews s slug :=
    fun slug h => h₁.2.others slug h
  have hview : ∀ slug, projectViews s₂ slug = if Undeclared projects slug
      then prunedProject policy now (projectViews s₁ slug) else projectViews s₁ slug := by
    intro slug
    by_cases hrow : ∃ row ∈ rows, row.slug = slug
    · obtain ⟨row, hrow, rfl⟩ := hrow
      exact h₂.2.post row hrow
    · have hnone : projectViews s₁ slug = none := by
        apply view_of_not_slugged
        refine lookup_eq_none.mpr fun row hmem hslug => hrow ⟨row, hrows.mem_iff.mpr hmem, hslug⟩
      rw [h₂.2.others slug fun row hmem hslug => hrow ⟨row, hmem, hslug⟩, hnone]
      cases policy <;> simp [prunedProject]
  constructor
  · refine (h₁.1.mono fun _ h => h.elim).trans (h₂.1.mono ?_)
    rintro id ⟨hpolicy, row, hrow, hundeclared, rfl⟩
    rw [mem_projects_iff h₁.1.sound] at hrow
    refine ⟨hpolicy, row, (mem_projects_iff hs).mpr ?_, hundeclared, rfl⟩
    rw [← hrow]
    exact (slugged_congr (hsame _ hundeclared)).symm
  · intro p hp
    rw [hview, if_neg fun hundeclared => hundeclared p hp rfl]
    exact h₁.2.post p hp
  · intro slug hundeclared
    rw [hview, if_pos hundeclared, hsame slug hundeclared]
  · refine ⟨rows.filter fun row => Undeclared projects row.slug, ?_, ?_⟩
    · refine List.Perm.trans ?_ (undeclaredProjects_perm hs h₁.1.sound hsame)
      refine List.Perm.trans (hrows.filter _) (.of_eq (List.filter_congr fun row _ => ?_))
      rw [Bool.eq_iff_iff, decide_eq_true_iff, Bool.not_eq_true', any_slug_eq_false]
    · rw [h₂.2.log, h₁.2.log, flatMap_ite]

end ConfigSync

end Soika
