import Soika.Domain.ConfigFile

/-! # The plan of a synchronization

What a file will do to the teams and projects that exist, checked on their names before
anything is written; and the report of what was done.
-/

namespace Soika

inductive SyncActionKind where
  | create
  | update
  | unchanged
  | restore
  | orphan
  | delete
  deriving DecidableEq

structure SyncAction where
  entity : String
  key : String
  action : SyncActionKind
  deriving DecidableEq

def planPresent (present orphaned changed : Bool) : SyncActionKind :=
  if ¬ present then .create
  else if orphaned then .restore
  else if changed then .update
  else .unchanged

/-- Validate cross-entity references before any writes. Return all missing teams. -/
def validateReferences (file : ConfigFile) (existingTeams : List String) : Except Error Unit :=
  let names :=
    match file.teams with
    | some teams => teams.map TeamConfig.name
    | none => existingTeams
  joinErrors ((file.projectList.filter fun project => project.team ∉ names).map fun project =>
    "project " ++ project.slug ++ " references unknown team " ++ project.team)

def finalProjectTeam (file : ConfigFile) (settings : ManagementSettings)
    (slug currentTeam : String) : Option String :=
  match file.projects with
  | none => some currentTeam
  | some desired =>
    match desired.find? fun p => p.slug = slug with
    | some project => some project.team
    | none => if settings.projectOrphanPolicy = .delete then none else some currentTeam

def remainingProjects (file : ConfigFile) (settings : ManagementSettings)
    (projects : List (String × String)) (team : String) : List String :=
  (projects.filter fun p => finalProjectTeam file settings p.1 p.2 = some team).map Prod.fst

/-- What stands in the way of deleting the teams that the file does not declare. -/
def ownershipErrors (file : ConfigFile) (settings : ManagementSettings) (teams : List String)
    (projects : List (String × String)) : List String :=
  match file.teams with
  | none => []
  | some desired =>
    if settings.teamOrphanPolicy = .delete then
      (teams.filter fun name => ¬ desired.any fun t => t.name = name).filterMap fun team =>
        let remaining := remainingProjects file settings projects team
        if remaining = [] then none
        else some ("team " ++ team ++ " still owns projects: " ++ ", ".intercalate remaining)
    else []

/-- Validate the final ownership graph, including planned transfers and removals. -/
def validatePlan (P : Platform) (file : ConfigFile) (settings : ManagementSettings)
    (teams : List String) (projects : List (String × String)) : Except Error Unit :=
  let referenceErrors :=
    match validateReferences file teams with
    | .ok () => []
    | .error error => [error.display P.dbText]
  joinErrors (referenceErrors ++ ownershipErrors file settings teams projects)

theorem joinErrors_eq_ok {errors : List String} {u : Unit} :
    joinErrors errors = .ok u ↔ errors = [] := by
  unfold joinErrors
  split <;> simp_all

/-- The plan as conditions on names: every project refers to a team that will be there, and no
project that stays refers to a team that will be deleted. -/
structure PlanHolds (file : ConfigFile) (settings : ManagementSettings) (teams : List String)
    (projects : List (String × String)) : Prop where
  references : ∀ p ∈ file.projectList,
    match file.teams with
    | some desired => ∃ t ∈ desired, t.name = p.team
    | none => p.team ∈ teams
  ownership : ∀ desired, file.teams = some desired → settings.teamOrphanPolicy = .delete →
    ∀ team ∈ teams, (∀ t ∈ desired, t.name ≠ team) →
      ∀ p ∈ projects, finalProjectTeam file settings p.1 p.2 ≠ some team

theorem validateReferences_eq_ok {file : ConfigFile} {teams : List String} {u : Unit} :
    validateReferences file teams = .ok u ↔ ∀ p ∈ file.projectList,
      match file.teams with
      | some desired => ∃ t ∈ desired, t.name = p.team
      | none => p.team ∈ teams := by
  simp only [validateReferences, joinErrors_eq_ok, List.map_eq_nil_iff, List.filter_eq_nil_iff,
    decide_eq_true_eq, not_not]
  cases file.teams <;> simp

theorem ownershipErrors_eq_nil {file : ConfigFile} {settings : ManagementSettings}
    {teams : List String} {projects : List (String × String)} :
    ownershipErrors file settings teams projects = [] ↔
      ∀ desired, file.teams = some desired → settings.teamOrphanPolicy = .delete →
        ∀ team ∈ teams, (∀ t ∈ desired, t.name ≠ team) →
          ∀ p ∈ projects, finalProjectTeam file settings p.1 p.2 ≠ some team := by
  unfold ownershipErrors
  cases file.teams with
  | none => simp
  | some desired =>
    by_cases hpolicy : settings.teamOrphanPolicy = .delete
    · simp only [hpolicy, if_true, List.filterMap_eq_nil_iff, ite_eq_left_iff, reduceCtorEq,
        imp_false, not_not, remainingProjects, List.map_eq_nil_iff, List.filter_eq_nil_iff]
      simp
    · simp [hpolicy]

/-- `validate_plan` accepts exactly when the plan holds, in whatever order the rows come. -/
theorem validatePlan_eq_ok {P : Platform} {file : ConfigFile} {settings : ManagementSettings}
    {teams : List String} {projects : List (String × String)} {u : Unit} :
    validatePlan P file settings teams projects = .ok u ↔
      PlanHolds file settings teams projects := by
  have hplan : PlanHolds file settings teams projects ↔ _ ∧ _ :=
    ⟨fun h => ⟨h.references, h.ownership⟩, fun h => ⟨h.1, h.2⟩⟩
  rw [hplan, ← validateReferences_eq_ok (u := u), ← ownershipErrors_eq_nil, validatePlan,
    joinErrors_eq_ok, List.append_eq_nil_iff]
  cases validateReferences file teams <;> simp

structure GrantBinding where
  email : String
  role : TeamRole
  userId : Option Id
  localAccount : Bool

structure SyncReport where
  actions : List SyncAction
  loaded : Bool
  syncedAt : Option Timestamp
  created : ℕ
  updated : ℕ
  unchanged : ℕ
  restored : ℕ
  orphaned : ℕ
  deleted : ℕ
  projectsInFile : ℕ
  teamsInFile : ℕ
  pendingGrants : ℕ
  localGrants : ℕ
  localAccounts : List GrantBinding
  orphanedProjects : ℕ
  orphanedTeams : ℕ

namespace SyncReport

/-- `SyncReport::default`, its flag for the default file apart. -/
def empty : SyncReport := ⟨[], false, none, 0, 0, 0, 0, 0, 0, 0, 0, 0, 0, [], 0, 0⟩

def record (r : SyncReport) (entity key : String) (action : SyncActionKind) : SyncReport :=
  let r := { r with actions := r.actions ++ [SyncAction.mk entity key action] }
  match action with
  | .create => { r with created := r.created + 1 }
  | .update => { r with updated := r.updated + 1 }
  | .unchanged => { r with unchanged := r.unchanged + 1 }
  | .restore => { r with restored := r.restored + 1 }
  | .orphan => { r with orphaned := r.orphaned + 1 }
  | .delete => { r with deleted := r.deleted + 1 }

def count (r : SyncReport) (action : SyncActionKind) : ℕ :=
  r.actions.countP fun a => a.action = action

structure Counted (r : SyncReport) : Prop where
  created : r.created = r.count .create
  updated : r.updated = r.count .update
  unchanged : r.unchanged = r.count .unchanged
  restored : r.restored = r.count .restore
  orphaned : r.orphaned = r.count .orphan
  deleted : r.deleted = r.count .delete

@[simp] theorem record_actions (r : SyncReport) (entity key : String) (action : SyncActionKind) :
    (r.record entity key action).actions = r.actions ++ [SyncAction.mk entity key action] := by
  cases action <;> rfl

theorem count_record (r : SyncReport) (entity key : String) (action kind : SyncActionKind) :
    (r.record entity key action).count kind = r.count kind + if action = kind then 1 else 0 := by
  simp [count, List.countP_append, List.countP_cons]

theorem Counted.record {r : SyncReport} (h : r.Counted) (entity key : String)
    (action : SyncActionKind) : (r.record entity key action).Counted := by
  cases action <;> constructor <;> rw [count_record] <;>
    simp [SyncReport.record, h.created, h.updated, h.unchanged, h.restored, h.orphaned, h.deleted]

end SyncReport

end Soika
