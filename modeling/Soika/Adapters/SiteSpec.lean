import Soika.Adapters.AccountsSpec
import Soika.Adapters.IssuePages
import Soika.Adapters.IssueSpec
import Soika.Adapters.Site

/-! # What the statements of the API do

One lemma for each write that can be refused, and for each query what its rows are.
-/

namespace Soika

open Table

namespace Accounts

variable {B : AccountBackend} {d d' : Accounts} {now : Timestamp} {u : Unit} {row : ProjectRow}

theorem settle_eq_ok {α : Type} {x : Except Error (α × Accounts)} {a : α} :
    d.settle x = (.ok a, d') ↔ x = .ok (a, d') := by
  rcases x with e | ⟨b, d₁⟩ <;> simp [settle]

theorem settle_state {α : Type} (x : Except Error (α × Accounts)) :
    (d.settle x).2 = d ∨ ∃ a, x = .ok (a, (d.settle x).2) := by
  rcases x with e | ⟨a, d₁⟩
  · exact .inl rfl
  · exact .inr ⟨a, rfl⟩

theorem insertProject_eq_ok {new : NewProject} {shortId : String} :
    d.insertProject B new shortId now = .ok (row, d') ↔
      (∀ p ∈ d.projects, p.slug ≠ new.slug ∧ p.shortId ≠ shortId ∧
        p.dsnPublicKey ≠ new.dsnPublicKey) ∧
      d.HasTeam new.teamId ∧ row = new.row d.nextId shortId (B.ts now) ∧
      d' = { d.withProjects (d.addProject row) with nextId := d.nextId + 1 } := by
  simp only [insertProject, ite_error_eq_ok, ok_eq_ok, Prod.mk.injEq, not_not]
  constructor
  · rintro ⟨hnew, hteam, rfl, rfl⟩
    push Not at hnew
    exact ⟨hnew, hteam, rfl, rfl⟩
  · rintro ⟨hnew, hteam, rfl, rfl⟩
    refine ⟨?_, hteam, rfl, rfl⟩
    push Not
    exact hnew

theorem updateProject_eq_ok {id : Id} {u : ProjectRowUpdate} :
    d.updateProject B id u now = .ok (row, d') ↔
      ∃ p, d.projectById id = some p ∧ (∀ teamId ∈ u.teamId, d.HasTeam teamId) ∧
        row = u.applyRow (B.ts now) p ∧
        d' = d.withProjects (d.modifyProject id (u.applyRow (B.ts now))) := by
  unfold updateProject
  cases d.projectById id with
  | none => simp
  | some p =>
    simp only [ite_error_eq_ok, ok_eq_ok, Prod.mk.injEq, Option.some.injEq, exists_eq_left']
    push Not
    exact Iff.rfl

theorem regenerateDsn_eq_ok {id : Id} {key : String} :
    d.regenerateDsn B id key now = .ok (row, d') ↔
      ∃ p, d.projectById id = some p ∧ (∀ q ∈ d.projects, q.id ≠ id → q.dsnPublicKey ≠ key) ∧
        row = p.withDsn key (B.ts now) ∧
        d' = d.withProjects (d.modifyProject id (.withDsn key (B.ts now))) := by
  unfold regenerateDsn
  cases d.projectById id with
  | none => simp
  | some p =>
    simp only [ite_error_eq_ok, ok_eq_ok, Prod.mk.injEq, Option.some.injEq, exists_eq_left',
      not_exists, not_and]

theorem addFavorite_eq_ok {userId projectId : Id} :
    d.addFavorite B userId projectId = .ok (u, d') ↔
      (d.HasUser userId ∧ d.HasProject projectId) ∧ d' = { d with
        projectOwned :=
          if .favorite userId projectId ∈ d.projectOwned then d.projectOwned
          else d.projectOwned ++ [.favorite userId projectId] } := by
  simp only [addFavorite, ite_ok_eq_ok, Prod.mk.injEq, true_and]
  exact Iff.rfl

theorem createTeam_eq_ok {name : String} {team : TeamRow} :
    d.createTeam B name now = .ok (team, d') ↔
      (∀ t ∈ d.teams, t.name ≠ name) ∧ team = ⟨d.nextId, name, B.ts now, B.ts now, none⟩ ∧
        d' = { d.withTeams (d.addTeam team) with nextId := d.nextId + 1 } := by
  simp only [createTeam, ite_error_eq_ok, ok_eq_ok, Prod.mk.injEq, not_exists, not_and]
  constructor
  · rintro ⟨hname, rfl, rfl⟩
    exact ⟨hname, rfl, rfl⟩
  · rintro ⟨hname, rfl, rfl⟩
    exact ⟨hname, rfl, rfl⟩

theorem renameTeam_eq_ok {id : Id} {name : String} :
    d.renameTeam B id name now = .ok (u, d') ↔
      ∃ t, lookup TeamRow.id id d.teams = some t ∧
        (∀ t ∈ d.teams, t.id ≠ id → t.name ≠ name) ∧
        d' = d.withTeams (d.modifyTeam id (.withName name (B.ts now))) := by
  unfold renameTeam
  cases lookup TeamRow.id id d.teams with
  | none => simp
  | some t =>
    simp only [ite_error_eq_ok, ok_eq_ok, Prod.mk.injEq, true_and, Option.some.injEq,
      exists_eq_left', not_exists, not_and]

theorem mem_projectsOfUser {userId : Id} :
    row ∈ d.projectsOfUser userId ↔
      row ∈ d.projects ∧ ∃ m ∈ d.teamMembers, m.teamId = row.teamId ∧ m.userId = userId := by
  simp only [projectsOfUser, List.mem_flatMap, List.mem_map, List.mem_filter, decide_eq_true_eq]
  constructor
  · rintro ⟨p, hp, m, hm, rfl⟩
    exact ⟨hp, m, hm⟩
  · rintro ⟨hp, m, hm⟩
    exact ⟨row, hp, m, hm, rfl⟩

theorem mem_teamsOfUser {team : TeamRow} {userId : Id} :
    team ∈ d.teamsOfUser userId ↔
      team ∈ d.teams ∧ ∃ m ∈ d.teamMembers, m.teamId = team.id ∧ m.userId = userId := by
  simp only [teamsOfUser, List.mem_flatMap, List.mem_map, List.mem_filter, decide_eq_true_eq]
  constructor
  · rintro ⟨t, ht, m, hm, rfl⟩
    exact ⟨ht, m, hm⟩
  · rintro ⟨ht, m, hm⟩
    exact ⟨team, ht, m, hm, rfl⟩

end Accounts

section Issues

variable {B : Backend} {s s' : Store} {issueId : Id} {fingerprint : String} {now : Timestamp}
  {i : Issue}

theorem updateReturning_eq_ok {f : Issue → Issue} :
    updateReturning B issueId f s = (.ok i, s') ↔
      ∃ row, s.issueById issueId = some row ∧ i = f row ∧ B.Readable (f row) ∧
        s' = s.modifyIssue issueId f := by
  unfold updateReturning
  cases s.issueById issueId with
  | none => simp
  | some row =>
    simp only [Prod.mk.injEq, Backend.rowToIssue_eq_ok, Option.some.injEq, exists_eq_left', and_assoc]
    exact and_congr_right fun _ => and_congr_right fun _ => eq_comm

theorem updateReturning_state (f : Issue → Issue) (s : Store) :
    (updateReturning B issueId f s).2 = s ∨
      (updateReturning B issueId f s).2 = s.modifyIssue issueId f := by
  unfold updateReturning
  split
  · exact .inr rfl
  · exact .inl rfl

structure Issue.Keeps (f : Issue → Issue) : Prop where
  id : ∀ i, (f i).id = i.id
  projectId : ∀ i, (f i).projectId = i.projectId

theorem Issue.keeps_withStatus (status : IssueStatus) (now : Timestamp) :
    Issue.Keeps (Issue.withStatus B status now) := ⟨fun _ => rfl, fun _ => rfl⟩

theorem Issue.keeps_withMute (spec : MuteSpec) (now : Timestamp) :
    Issue.Keeps (Issue.withMute B spec now) := ⟨fun _ => rfl, fun _ => rfl⟩

theorem Issue.keeps_absorb (source : Issue) (fingerprint : String) (now : Timestamp) :
    Issue.Keeps (Issue.absorb B source fingerprint now) := ⟨fun _ => rfl, fun _ => rfl⟩

theorem Issue.keeps_withFingerprint (fingerprint : String) (now : Timestamp) :
    Issue.Keeps (Issue.withFingerprint B fingerprint now) := ⟨fun _ => rfl, fun _ => rfl⟩

/-- What an override of a fingerprint does: nothing, a merge or a rename. -/
inductive OverrideStep (B : Backend) (issueId : Id) (s : Store) : Store → Prop where
  | same : OverrideStep B issueId s s
  | merge {target source : Issue} {fingerprint : String} {now : Timestamp}
      (htarget : s.issueById issueId = some target)
      (hsource : s.collision target fingerprint = some source) :
      OverrideStep B issueId s (((s.repointEvents source.id target.id).removeIssue
        source.id).modifyIssue target.id (Issue.absorb B source fingerprint now))
  | rename {target : Issue} {fingerprint : String} {now : Timestamp}
      (htarget : s.issueById issueId = some target) :
      OverrideStep B issueId s (s.modifyIssue target.id (Issue.withFingerprint B fingerprint now))

theorem commit_eq_ok {α : Type} {r : Except Error (α × Store)} {a : α} :
    commit r s = (.ok a, s') ↔ r = .ok (a, s') := by
  rcases r with e | ⟨b, s₁⟩ <;> simp [commit]

theorem commit_state {α : Type} {r : Except Error (α × Store)} :
    (commit r s).2 = s ∨ ∃ a, r = .ok (a, (commit r s).2) := by
  rcases r with e | ⟨a, s₁⟩
  · exact .inl rfl
  · exact .inr ⟨a, rfl⟩

theorem overridden_of_mergeInto {target source : Issue} (htarget : s.issueById issueId = some target)
    (hsource : s.collision target fingerprint = some source)
    (h : mergeInto B target source fingerprint now s = .ok (i, s')) :
    i.id = issueId ∧ OverrideStep B issueId s s' := by
  obtain ⟨-, rfl, rfl⟩ := mergeInto_eq_ok.mp h
  exact ⟨(Store.issueById_mem htarget).2, .merge htarget hsource⟩

theorem overridden_of_renameTo {target : Issue} (htarget : s.issueById issueId = some target)
    (h : renameTo B target fingerprint now s = .ok (i, s')) :
    i.id = issueId ∧ OverrideStep B issueId s s' := by
  obtain ⟨-, rfl, rfl⟩ := renameTo_eq_ok.mp h
  exact ⟨(Store.issueById_mem htarget).2, .rename htarget⟩

theorem overrideFingerprintOnce_ok
    (h : overrideFingerprintOnce B issueId fingerprint now s = .ok (i, s')) :
    i.id = issueId ∧ OverrideStep B issueId s s' := by
  obtain ⟨target, htarget, -, ⟨-, rfl, rfl⟩ | ⟨-, ⟨source, hsource, -, hmerge⟩ | ⟨-, hrename⟩⟩⟩ :=
    overrideFingerprintOnce_eq_ok.mp h
  · exact ⟨(Store.issueById_mem htarget).2, .same⟩
  · exact overridden_of_mergeInto htarget hsource hmerge
  · exact overridden_of_renameTo htarget hrename

theorem lockAndMerge_ok {o : Option Issue}
    (h : lockAndMerge B issueId fingerprint now s = .ok (o, s')) :
    (∀ i ∈ o, i.id = issueId) ∧ OverrideStep B issueId s s' := by
  obtain ⟨target, htarget, -, ⟨-, rfl, rfl⟩ | ⟨-, ⟨source, i, hsource, -, hmerge, rfl⟩ |
    ⟨-, rfl, rfl⟩⟩⟩ := lockAndMerge_eq_ok.mp h
  · refine ⟨fun i hi => ?_, .same⟩
    obtain rfl := Option.some.inj hi
    exact (Store.issueById_mem htarget).2
  · obtain ⟨hid, hstate⟩ := overridden_of_mergeInto htarget hsource hmerge
    refine ⟨fun j hj => ?_, hstate⟩
    obtain rfl := Option.some.inj hj
    exact hid
  · refine ⟨?_, .same⟩
    rintro i ⟨⟩

theorem renameLocked_ok (h : renameLocked B issueId fingerprint now s = .ok (i, s')) :
    i.id = issueId ∧ OverrideStep B issueId s s' := by
  obtain ⟨target, htarget, -, hrename⟩ := renameLocked_eq_ok.mp h
  exact overridden_of_renameTo htarget hrename

end Issues

/-- The rows of the `WHERE` clause are issues of the project. -/
theorem Engine.selected_mem {E : Engine} {s : Store} {projectId : Id} {filter : IssueFilter}
    {rows : List Issue} (h : E.selected s projectId filter = .ok rows) :
    ∀ i ∈ rows, i ∈ s.issues ∧ i.projectId = projectId := by
  obtain ⟨p, rfl⟩ := E.selected_sub h
  intro i hi
  have hmem := (List.mem_filter.mp (List.mem_filter.mp hi).1)
  simp only [Bool.and_eq_true, decide_eq_true_eq] at hmem
  exact ⟨hmem.1, hmem.2.1⟩

theorem Engine.list_mem {E : Engine} {arrange : List Issue → List Issue}
    (harrange : ∀ rows, (arrange rows).Perm rows) {s : Store} {projectId : Id}
    {filter : IssueFilter} {out : List Issue} (h : E.list arrange s projectId filter = .ok out) :
    ∀ i ∈ out, i ∈ s.issues ∧ i.projectId = projectId := by
  unfold Engine.list at h
  obtain ⟨rows, hrows, h⟩ := bind_eq_ok.mp h
  obtain ⟨rfl, -⟩ := Engine.mapM_rowToIssue_eq_ok.mp h
  intro i hi
  have hsorted := List.mem_mergeSort.mp (List.mem_of_mem_drop (List.mem_of_mem_take hi))
  exact Engine.selected_mem hrows i ((harrange rows).mem_iff.mp hsorted)

namespace SiteHost

variable {H : SiteHost} {d : Accounts}

theorem mem_eventsOf {issueId : Id} {e : Event} :
    e ∈ H.eventsOf d issueId ↔ e ∈ d.events ∧ e.issueId = issueId := by
  rw [eventsOf, List.mem_mergeSort, mem_select]

theorem mem_byName {rows : List ProjectRow} {row : ProjectRow} : row ∈ byName rows ↔ row ∈ rows :=
  List.mem_mergeSort

theorem mem_teamsByName {rows : List TeamRow} {row : TeamRow} :
    row ∈ teamsByName rows ↔ row ∈ rows :=
  List.mem_mergeSort

end SiteHost

end Soika
