import Soika.ConfigSync.Pruning

/-! # What pruning the teams does

A team that the file does not declare is marked, or deleted with its grants and memberships. A
deletion goes through when no project refers to the team.
-/

namespace Soika

open Table

namespace ConfigSync

open Session

variable {P : Platform} {R : Error → Prop} {s : Session} {policy : OrphanPolicy} {now : Timestamp}

def orphanedTeam (now : Timestamp) (row : TeamRow) : TeamRow :=
  if row.orphanedAt.isSome then row else { row with orphanedAt := some now }

def prunedTeam (policy : OrphanPolicy) (now : Timestamp) (old : Option TeamView) :
    Option TeamView :=
  match policy with
  | .readonly => old.map fun v => { v with row := orphanedTeam now v.row }
  | .delete => none

theorem markOrphanTeam_yields (hs : s.Sound) {row : TeamRow}
    (hrow : s.db.teamNamed row.name = some row) :
    Yields R (markOrphanTeam row now) (fun _ s' => (s'.Sound ∧ s.OnlyTeams s') ∧
      Transaction.Changes teamViews actionsOf row.name
        (fun old new => new = prunedTeam .readonly now old)
        (fun _ => prunedEntries "team" row.name .readonly row.orphanedAt.isSome) s s') s := by
  have hview : teamViews s row.name = _ := view_of_named hrow
  unfold markOrphanTeam
  split
  · rename_i horphaned
    have hsame : orphanedTeam now row = row := if_pos horphaned
    refine .ret ⟨⟨hs, .refl s⟩, ?_, fun _ _ => rfl, ?_⟩
    · rw [hview, prunedTeam, Option.map_some]
      change _ = some { s.db.toTeamTables.viewOf row with row := orphanedTeam now row }
      rw [hsame]
      rfl
    · rw [prunedEntries, if_pos horphaned, List.append_nil]
  · rename_i horphaned
    let mark (t : TeamRow) : TeamRow := { t with orphanedAt := some now }
    have hT : (s.db.modifyTeam row.id mark).Consistent :=
      hs.db.teams.modifyTeam (fun _ => rfl) fun _ => rfl
    have hout : TeamTables.SameOutside row.id row.name s.db.toTeamTables
        (s.db.modifyTeam row.id mark) := hs.db.teams.sameOutside_modifyTeam hrow fun _ => rfl
    have hself : (s.db.modifyTeam row.id mark).teamNamed row.name = some (mark row) := by
      rw [TeamTables.teamNamed_modifyTeam (f := mark) fun _ => rfl, hrow, Option.map_some, if_pos rfl]
    refine .seq (yields_updateTeams (yields_record ⟨⟨?_, ?_⟩, ?_, fun n hn => ?_, ?_⟩))
    · exact (hs.withTeams hT (hasTeam_modifyTeam (f := mark) (fun _ => rfl) row.id)).record _ _ _
    · exact ⟨rfl, rfl, rfl⟩
    · refine (view_of_named hself).trans ?_
      rw [hview, prunedTeam, Option.map_some]
      exact congrArg (fun r => some { s.db.toTeamTables.viewOf row with row := r })
        (if_neg horphaned).symm
    · exact hout.view hn fun r hr => hs.db.teams.id_ne hr hrow hn
    · rw [prunedEntries, if_neg horphaned]
      exact SyncReport.record_actions ..

theorem removeTeam_sound (hs : s.Sound) {id : Id} (hfree : ∀ p ∈ s.db.projects, p.teamId ≠ id) :
    (s.withTeams (s.db.removeTeam id)).Sound where
  db := { hs.db with
    teams := hs.db.teams.removeTeam id
    projectTeam := fun p hp => by
      obtain ⟨t, ht, heq⟩ := hs.db.projectTeam p hp
      exact ⟨t, mem_remove.mpr ⟨ht, heq ▸ hfree p hp⟩, heq⟩
    teamFresh := fun t ht => hs.db.teamFresh t (mem_remove.mp ht).1 }
  report := hs.report

theorem pruneTeam_yields (hs : s.Sound) {row : TeamRow}
    (hrow : s.db.teamNamed row.name = some row)
    (hfree : policy = .delete → ∀ p ∈ s.db.projects, p.teamId ≠ row.id) :
    Yields R (pruneTeam P row policy now) (fun _ s' => (s'.Sound ∧ s.OnlyTeams s') ∧
      Transaction.Changes teamViews actionsOf row.name
        (fun old new => new = prunedTeam policy now old)
        (fun _ => prunedEntries "team" row.name policy row.orphanedAt.isSome) s s') s := by
  cases policy with
  | readonly => exact markOrphanTeam_yields hs hrow
  | delete =>
    have hfree := hfree rfl
    have hnone : Table.select ProjectRow.teamId row.id s.db.projects = [] := by
      rw [Table.select, List.filter_eq_nil_iff]
      exact fun p hp heq => hfree p hp (of_decide_eq_true heq)
    have hno : ¬ ∃ p ∈ s.db.projects, p.teamId = row.id := by
      rintro ⟨p, hp, heq⟩
      exact hfree p hp heq
    refine .seq (yields_select fun slugs hslugs => ?_)
    rw [hnone, List.map_nil, List.perm_nil] at hslugs
    rw [if_neg (not_not.mpr hslugs)]
    refine .seq (yields_execute (fun w u d hd => ?_) fun w e hd => ?_)
    · obtain rfl : _ = d := congrArg Prod.snd (Except.ok.inj ((if_neg hno).symm.trans hd))
      refine yields_record ⟨⟨?_, ⟨rfl, rfl, rfl⟩⟩, ?_, fun n hn => ?_, ?_⟩
      · exact (removeTeam_sound hs hfree).record _ _ _
      · exact view_of_not_named (hs.db.teams.teamNamed_removeTeam_self hrow)
      · exact (hs.db.teams.sameOutside_removeTeam hrow).view hn fun r hr =>
          hs.db.teams.id_ne hr hrow hn
      · exact SyncReport.record_actions ..
    · cases (if_neg hno).symm.trans hd

abbrev UndeclaredTeam (teams : List TeamConfig) (name : String) : Prop :=
  ∀ t ∈ teams, t.name ≠ name

theorem any_name_eq_false {teams : List TeamConfig} {name : String} :
    (teams.any fun t => t.name = name) = false ↔ UndeclaredTeam teams name := by
  simp [UndeclaredTeam]

def undeclaredTeams (teams : List TeamConfig) (d : Directory) : List TeamRow :=
  d.teams.filter fun row => UndeclaredTeam teams row.name

theorem mem_teams_iff (hs : s.Sound) {row : TeamRow} :
    row ∈ s.db.teams ↔ s.db.teamNamed row.name = some row :=
  ⟨hs.db.teams.teamNamed_of_mem, fun h => (TeamTables.teamNamed_mem h).1⟩

theorem named_congr {T T' : TeamTables} {name : String} (h : T'.view name = T.view name) :
    T'.teamNamed name = T.teamNamed name := by
  cases hrow : T.teamNamed name with
  | none =>
    rw [view_of_not_named hrow] at h
    exact Option.map_eq_none_iff.mp h
  | some row =>
    rw [view_of_named hrow] at h
    obtain ⟨r, hr, hview⟩ := Option.map_eq_some_iff.mp h
    rw [hr]
    exact congrArg (fun v : TeamView => some v.row) hview

/-- The teams that are not declared stay as they are while the declared ones are written. -/
theorem undeclaredTeams_perm {s' : Session} {teams : List TeamConfig} (hs : s.Sound)
    (hs' : s'.Sound)
    (hsame : ∀ name, UndeclaredTeam teams name → teamViews s' name = teamViews s name) :
    (undeclaredTeams teams s'.db).Perm (undeclaredTeams teams s.db) := by
  have hnodup : ∀ {t : Session}, t.Sound → (undeclaredTeams teams t.db).Nodup :=
    fun ht => (List.Nodup.of_map _ ht.db.teams.teamNames).filter _
  refine (List.perm_ext_iff_of_nodup (hnodup hs') (hnodup hs)).mpr fun row => ?_
  simp only [undeclaredTeams, List.mem_filter, decide_eq_true_eq, mem_teams_iff hs',
    mem_teams_iff hs]
  constructor
  · rintro ⟨hrow, hundeclared⟩
    exact ⟨(named_congr (hsame _ hundeclared)).symm.trans hrow, hundeclared⟩
  · rintro ⟨hrow, hundeclared⟩
    exact ⟨(named_congr (hsame _ hundeclared)).trans hrow, hundeclared⟩

/-- No project refers to a team that will be deleted. -/
def Unowned (teams : List TeamConfig) (policy : OrphanPolicy) (d : Directory) : Prop :=
  policy = .delete → ∀ row ∈ d.teams, UndeclaredTeam teams row.name →
    ∀ p ∈ d.projects, p.teamId ≠ row.id

structure TeamsPruned (teams : List TeamConfig) (policy : OrphanPolicy) (now : Timestamp)
    (s s' : Session) : Prop where
  sound : s'.Sound
  only : s.OnlyTeams s'
  declared : ∀ t ∈ teams, teamViews s' t.name = teamViews s t.name
  others : ∀ name, UndeclaredTeam teams name →
    teamViews s' name = prunedTeam policy now (teamViews s name)
  actions : ∃ rows : List TeamRow, rows.Perm (undeclaredTeams teams s.db) ∧
    actionsOf s' = actionsOf s ++ rows.flatMap fun row =>
      prunedEntries "team" row.name policy row.orphanedAt.isSome

theorem prunesTeams_yields (hs : s.Sound) {teams : List TeamConfig} {rows : List TeamRow}
    (hrows : rows.Perm s.db.teams) (hunowned : Unowned teams policy s.db) :
    Yields R (Transaction.each (fun row : TeamRow =>
      if teams.any fun t => t.name = row.name then pure ()
      else pruneTeam P row policy now) rows)
      (fun _ s' => TeamsPruned teams policy now s s') s := by
  have hkeys : (rows.map TeamRow.name).Nodup :=
    (hrows.map TeamRow.name).nodup_iff.mpr hs.db.teams.teamNames
  have hloop : Yields R (Transaction.each (fun row : TeamRow =>
      if teams.any fun t => t.name = row.name then pure ()
      else pruneTeam P row policy now) rows) (fun _ s' => (s'.Sound ∧ s.OnlyTeams s') ∧
        Transaction.ChangesEach teamViews actionsOf TeamRow.name
          (fun row old new => new = if UndeclaredTeam teams row.name
            then prunedTeam policy now old else old)
          (fun row _ => if UndeclaredTeam teams row.name
            then prunedEntries "team" row.name policy row.orphanedAt.isSome else [])
          rows s s') s := by
    refine .foldKey teamViews actionsOf TeamRow.name _ _ hkeys ⟨hs, .refl s⟩ ?_
    intro _ row hrow t ht hview
    have hmem := hrows.mem_iff.mp hrow
    by_cases hundeclared : UndeclaredTeam teams row.name
    · have hname : t.db.teamNamed row.name = some row :=
        (named_congr hview).trans ((mem_teams_iff hs).mp hmem)
      have hfree : policy = .delete → ∀ p ∈ t.db.projects, p.teamId ≠ row.id := by
        intro hpolicy p hp
        have hprojects : t.db.projects = s.db.projects :=
          congrArg ProjectTables.projects ht.2.projects
        exact hunowned hpolicy row hmem hundeclared p (hprojects ▸ hp)
      simp only [any_name_eq_false.mpr hundeclared, if_pos hundeclared, Bool.false_eq_true, if_false]
      refine (pruneTeam_yields ht.1 hname hfree).mono fun _ t' h => ?_
      exact ⟨⟨h.1.1, ht.2.trans h.1.2⟩, h.2⟩
    · have hdeclared : (teams.any fun t => t.name = row.name) = true := by
        rwa [← Bool.not_eq_false, any_name_eq_false]
      simp only [hdeclared, if_neg hundeclared, if_true]
      exact .ret ⟨ht, rfl, fun _ _ => rfl, (List.append_nil _).symm⟩
  refine hloop.mono fun _ s' h => ?_
  have hview : ∀ name, teamViews s' name = if UndeclaredTeam teams name
      then prunedTeam policy now (teamViews s name) else teamViews s name := by
    intro name
    by_cases hrow : ∃ row ∈ rows, row.name = name
    · obtain ⟨row, hrow, rfl⟩ := hrow
      exact h.2.post row hrow
    · have hnone : teamViews s name = none := by
        apply view_of_not_named
        refine lookup_eq_none.mpr fun row hmem hname => hrow ⟨row, hrows.mem_iff.mpr hmem, hname⟩
      rw [h.2.others name fun row hmem hname => hrow ⟨row, hmem, hname⟩, hnone]
      cases policy <;> simp [prunedTeam]
  constructor
  · exact h.1.1
  · exact h.1.2
  · intro t ht
    rw [hview, if_neg fun hundeclared => hundeclared t ht rfl]
  · intro name hundeclared
    rw [hview, if_pos hundeclared]
  · refine ⟨rows.filter fun row => UndeclaredTeam teams row.name, hrows.filter _, ?_⟩
    rw [h.2.log, flatMap_ite]

end ConfigSync

end Soika
