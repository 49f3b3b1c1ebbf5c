import Soika.ConfigSync.Idempotence

/-! # The grants of a user at sign-in

The groups of the user are replaced, and the role of the user in every team that is not orphaned
becomes what the stored grants say. No other row changes.
-/

namespace Soika

open Table

namespace Session

def withSsoGroups (s : Session) (rows : List UserSsoGroup) : Session :=
  { s with db := { s.db with userSsoGroups := rows } }

end Session

namespace ConfigSync

open Session

variable {P : Platform} {R : Error → Prop} {s : Session} {now : Timestamp}

theorem insertSsoGroups_yields {user : Id} {groups : List String}
    (hclash : R (.db P.foreignKeyViolation)) (hgroups : groups.Nodup)
    (hnone : ∀ g ∈ s.db.userSsoGroups, g.userId ≠ user) :
    Yields R (Transaction.each (fun group => insertSsoGroup P ⟨user, group, now⟩) groups)
      (fun _ s' => s' = s.withSsoGroups (s.db.userSsoGroups ++
        groups.map fun group => ⟨user, group, now⟩)) s := by
  refine .appendEach s.withSsoGroups (fun group : String => ⟨user, group, now⟩)
    (fun g => (g.userId, g.groupPath)) ?_ (fun g hg _ _ heq => hnone g hg (congrArg Prod.fst heq))
    fun group _ rows hrows => ?_
  · exact hgroups.map fun _ _ h => congrArg Prod.snd h
  · have hnew : group ∉ (s.withSsoGroups rows).db.groupsOfUser user := by
      intro hmem
      obtain ⟨g, hg, hpath⟩ := List.mem_map.mp hmem
      obtain ⟨hg, huser⟩ := mem_select.mp hg
      exact hrows g hg (Prod.ext huser hpath)
    apply yields_execute
    · intro w u d hinsert
      split at hinsert
      · cases hinsert
      · cases hinsert
        rfl
    · intro w e hinsert
      split at hinsert
      · cases hinsert
        exact hclash
      · cases hinsert

def regrouped (user : Id) (groups : List String) (now : Timestamp) (U : UserTables) : UserTables :=
  { U with userSsoGroups := remove UserSsoGroup.userId user U.userSsoGroups ++
      groups.dedup.map fun group => ⟨user, group, now⟩ }

theorem groupsOfUser_regrouped (user : Id) (groups : List String) (U : UserTables) (u : Id) :
    (regrouped user groups now U).groupsOfUser u =
      if user = u then groups.dedup else U.groupsOfUser u := by
  rw [UserTables.groupsOfUser, regrouped, select_append, select_map_of_key (k := user) fun _ => rfl]
  split
  · subst u
    rw [select_remove_self, List.nil_append, List.map_map]
    exact List.map_id _
  · rename_i h
    rw [select_remove_ne (Ne.symm h), List.append_nil]
    rfl

/-- Only memberships of the user differ, and the constraints hold. -/
structure UserOnly (user : Id) (s t : Session) : Prop where
  rows : ∃ ms, t = s.withTeamMembers ms
  consistent : t.db.Consistent
  others : ∀ i u, u ≠ user → t.db.memberOf i u = s.db.memberOf i u

theorem UserOnly.setMember {user id : Id} {t : Session} (h : UserOnly user s t)
    (hid : s.db.HasTeam id) (role : Option TeamRole) (now : Timestamp) :
    UserOnly user s (t.withTeams (t.db.setMember id user role now)) := by
  obtain ⟨⟨ms, rfl⟩, hconsistent, hothers⟩ := h
  constructor
  · exact ⟨_, rfl⟩
  · exact { hconsistent with
      teams := hconsistent.teams.setMember hid user role now
      projectTeam := hconsistent.projectTeam
      teamFresh := hconsistent.teamFresh }
  · intro i u hu
    exact (TeamTables.memberOf_setMember_ne (fun h => hu (congrArg Prod.snd h)) role now).trans
      (hothers i u hu)

def storedRole (P : Platform) (d : Directory) (user : UserRow) (team : TeamRow) : Option TeamRole :=
  roleIn P d.toUserTables (d.emailsOf team.id) (d.groupsOf team.id) user

def reconcileTeams (P : Platform) (user : UserRow) (now : Timestamp) (teams : List TeamRow) :
    SyncTx Bool :=
  Transaction.fold (fun granted (team : TeamRow) => do
    let here ← reconcile P team.id user.id user.email now
    return granted || here) false teams

theorem reconcileTeams_members (hd : s.db.Consistent) (user : UserRow) {teams : List TeamRow}
    (hteams : (teams.map TeamRow.id).Nodup) (hmem : ∀ team ∈ teams, team ∈ s.db.teams) :
    Yields R (reconcileTeams P user now teams) (fun _ t => UserOnly user.id s t ∧
      Transaction.ChangesEach (fun t id => t.db.memberOf id user.id) (fun _ => ([] : List Unit))
        TeamRow.id (fun team old new => new =
          TeamTables.memberAfter team.id user.id (storedRole P s.db user team) now old)
        (fun _ _ => []) teams s t) s := by
  refine .foldKey _ _ _ _ _ hteams ⟨⟨s.db.teamMembers, rfl⟩, hd, fun _ _ _ => rfl⟩ ?_
  intro _ team hteam t ht _
  obtain ⟨ms, rfl⟩ := ht.rows
  refine .seq (reconcile_yields (.ret ⟨ht.setMember ⟨team, hmem team hteam, rfl⟩ _ now, ?_⟩))
  constructor
  · exact TeamTables.memberOf_setMember_self ..
  · intro id hid
    exact TeamTables.memberOf_setMember_ne (fun h => hid (congrArg Prod.fst h)) _ now
  · rfl

theorem reconcileTeams_granted (user : UserRow) (teams : List TeamRow) :
    Yields R (reconcileTeams P user now teams) (fun granted _ =>
      granted = teams.any fun team => (storedRole P s.db user team).isSome) s := by
  refine (Transaction.Ensures.foldValue (I := fun granted before t =>
    (∃ ms, t = s.withTeamMembers ms) ∧
      granted = before.any fun team => (storedRole P s.db user team).isSome)
    ⟨⟨s.db.teamMembers, rfl⟩, rfl⟩ ?_).mono fun _ _ h => h.2
  rintro _ before team after _ - ⟨⟨ms, rfl⟩, rfl⟩
  refine .seq (reconcile_yields (.ret ⟨⟨_, rfl⟩, ?_⟩))
  rw [List.any_append, List.any_cons, List.any_nil, Bool.or_false]
  rfl

/-- What the reconciliation of a user leads to, and what it answers. -/
structure UserReconciled (P : Platform) (user : UserRow) (groups : List String) (now : Timestamp)
    (d : Directory) (granted : Bool) (d' : Directory) : Prop where
  consistent : d'.Consistent
  teams : ∃ ms, d'.toTeamTables = { d.toTeamTables with teamMembers := ms }
  projects : d'.toProjectTables = d.toProjectTables
  users : d'.toUserTables = regrouped user.id groups now d.toUserTables
  live : ∀ team ∈ d.teams, team.orphanedAt = none → d'.memberOf team.id user.id =
    TeamTables.memberAfter team.id user.id (storedRole P d' user team) now
      (d.memberOf team.id user.id)
  orphaned : ∀ team ∈ d.teams, team.orphanedAt ≠ none →
    d'.memberOf team.id user.id = d.memberOf team.id user.id
  others : ∀ i u, u ≠ user.id → d'.memberOf i u = d.memberOf i u
  granted : granted = true ↔
    ∃ team ∈ d.teams, team.orphanedAt = none ∧ (storedRole P d' user team).isSome

def withGroups (user : Id) (groups : List String) (now : Timestamp) (d : Directory) : Directory :=
  { d with toUserTables := regrouped user groups now d.toUserTables }

theorem consistent_withGroups {d : Directory} (h : d.Consistent) (user : Id) (groups : List String)
    (now : Timestamp) : (withGroups user groups now d).Consistent :=
  ⟨h.teams, h.projects, h.projectTeam, h.userIds, h.teamFresh, h.projectFresh, h.userFresh⟩

theorem regroup_yields {user : Id} {groups : List String} (hclash : R (.db P.foreignKeyViolation))
    {α : Type} {rest : SyncTx α} {Q : α → Session → Prop}
    (h : Yields R rest Q { s with db := withGroups user groups now s.db }) :
    Yields R (do
      update fun d => { d with
        userSsoGroups := Table.remove UserSsoGroup.userId user d.userSsoGroups }
      Transaction.each (fun group => insertSsoGroup P ⟨user, group, now⟩) groups.dedup
      rest) Q s := by
  refine .seq (yields_update (.bind (insertSsoGroups_yields hclash groups.nodup_dedup
    fun g hg => (mem_remove.mp hg).2) ?_))
  rintro _ _ rfl
  exact h

theorem userReconciled_of_loop {user : UserRow} {groups : List String} {teams : List TeamRow}
    {granted : Bool} {t : Session} {d : Directory}
    (hlive : ∀ team, team ∈ teams ↔ team ∈ d.teams ∧ team.orphanedAt = none)
    (hids : UniqueOn TeamRow.id d.teams) (hs : s.db = withGroups user.id groups now d)
    (honly : UserOnly user.id s t) (hmembers : Transaction.ChangesEach
      (fun t id => t.db.memberOf id user.id) (fun _ => ([] : List Unit)) TeamRow.id
      (fun team old new => new =
        TeamTables.memberAfter team.id user.id (storedRole P s.db user team) now old)
      (fun _ _ => []) teams s t)
    (hgranted : granted = teams.any fun team => (storedRole P s.db user team).isSome) :
    UserReconciled P user groups now d granted t.db := by
  obtain ⟨⟨ms, rfl⟩, hconsistent, hothers⟩ := honly
  have hmember : s.db.toTeamTables = d.toTeamTables := by rw [hs, withGroups]
  have hrole : ∀ team, storedRole P (s.withTeamMembers ms).db user team = storedRole P s.db user team :=
    fun _ => rfl
  constructor
  case consistent => exact hconsistent
  case teams =>
    refine ⟨ms, ?_⟩
    rw [Session.withTeamMembers, Session.withTeams, hmember]
  case projects =>
    change s.db.toProjectTables = d.toProjectTables
    rw [hs, withGroups]
  case users =>
    change s.db.toUserTables = regrouped user.id groups now d.toUserTables
    rw [hs, withGroups]
  case live =>
    intro team hteam horphaned
    have := hmembers.post team ((hlive team).mpr ⟨hteam, horphaned⟩)
    rw [hrole]
    simpa only [hmember] using this
  case orphaned =>
    intro team hteam horphaned
    refine (hmembers.others team.id fun team' hteam' heq => ?_).trans ?_
    · obtain ⟨hmem, hnone⟩ := (hlive team').mp hteam'
      exact horphaned (hids.eq_of_key hmem hteam heq ▸ hnone)
    · simp only [hmember]
  case others =>
    intro i u hu
    rw [hothers i u hu, hmember]
  case granted =>
    rw [hgranted, List.any_eq_true]
    simp only [hlive, hrole, and_assoc]

theorem reconcileUserOnce_yields (hd : s.db.Consistent) (hdb : ∀ e, R (.db e)) (user : Id)
    (groups : List String) (now : Timestamp) :
    Yields R (reconcileUserOnce P user groups now) (fun granted s' => ∃ row,
      s.db.userById user = some row ∧ UserReconciled P row groups now s.db granted s'.db) s := by
  have hrow : (withGroups user groups now s.db).userById user = s.db.userById user := rfl
  refine regroup_yields (hdb _) (.seq (yields_fetch ?_))
  dsimp only
  rw [hrow]
  clear hrow
  cases huser : s.db.userById user with
  | none => exact .fail (hdb _)
  | some row =>
    obtain ⟨-, rfl⟩ := lookup_eq_some_mem huser
    refine .seq (yields_select fun teams hteams => ?_)
    have hlive : ∀ team, team ∈ teams ↔ team ∈ s.db.teams ∧ team.orphanedAt = none := by
      intro team
      rw [hteams.mem_iff, List.mem_filter, decide_eq_true_eq]
      rfl
    have hids : (teams.map TeamRow.id).Nodup :=
      (hteams.map TeamRow.id).nodup_iff.mpr (hd.teams.teamIds.filter _)
    have hmem : ∀ team ∈ teams, team ∈ s.db.teams := fun team hteam => ((hlive team).mp hteam).1
    let regrouped : Session := { s with db := withGroups row.id groups now s.db }
    refine .bind ((reconcileTeams_members (s := regrouped) (consistent_withGroups hd _ _ _) row hids
      hmem).and (reconcileTeams_granted row teams)) ?_
    rintro granted t ⟨⟨honly, hmembers⟩, hgranted⟩
    refine .seq (yields_fetch (.ret ⟨row, rfl, ?_⟩))
    exact userReconciled_of_loop hlive hd.teams.teamIds rfl honly hmembers hgranted

/-- A reconciliation gives a user what the grants say, or fails and changes nothing. -/
theorem reconcileUser_cases {write : WritePolicy} {user : Id} {groups : List String}
    {attempts : ℕ → Attempt} {d : Directory} (hd : d.Consistent) :
    (∃ n row granted d', reconcileUser P write user groups attempts d = (.ok granted, d') ∧
      d.userById user = some row ∧
      UserReconciled P row groups (attempts n).now d granted d') ∨
    ∃ e, reconcileUser P write user groups attempts d = (.error e, d) := by
  have hatomic : ∀ n (d : Directory) e d', attempt (fun a => reconcileUserOnce P user groups a.now)
      (attempts n) d = (.error e, d') → d' = d := fun _ _ _ _ h => attempt_error h
  rcases retryFrom_cases hatomic write.maxRetries 0 d with ⟨n, granted, d', hrun, h⟩ | ⟨e, h⟩
  · left
    obtain ⟨hok, -⟩ := attempt_ensures (R := fun _ => True) (fun _ => trivial)
      (reconcileUserOnce_yields (s := ⟨d, .empty⟩) hd (fun _ => trivial) user groups (attempts n).now)
      hrun
    obtain ⟨s', rfl, row, hrow, hreconciled⟩ := hok granted rfl
    exact ⟨n, row, granted, _, h, hrow, hreconciled⟩
  · exact .inr ⟨e, h⟩

theorem reconcileUser_exact {write : WritePolicy} {user : Id} {groups : List String}
    {attempts : ℕ → Attempt} {d : Directory} (hd : d.Consistent) :
    (∀ granted d', reconcileUser P write user groups attempts d = (.ok granted, d') →
      ∃ n row, d.userById user = some row ∧
        UserReconciled P row groups (attempts n).now d granted d') ∧
    ∀ e d', reconcileUser P write user groups attempts d = (.error e, d') → d' = d := by
  have hcases := @reconcileUser_cases P write user groups attempts d hd
  constructor
  · intro granted d' h
    rcases hcases with ⟨n, row, granted', d'', hrun, hrow, hreconciled⟩ | ⟨e, hrun⟩
    · rw [hrun] at h
      cases h
      exact ⟨n, row, hrow, hreconciled⟩
    · rw [hrun] at h
      cases h
  · intro e d' h
    rcases hcases with ⟨n, row, granted', d'', hrun, -, -⟩ | ⟨e', hrun⟩
    · rw [hrun] at h
      cases h
    · rw [hrun] at h
      cases h
      rfl

def signInFormer : Except Error Bool × Directory :=
  reconcileUser lowerPlatform oneRun 0 ["/dev", "/dev"] (fun _ => calmAttempt) formerDirectory

theorem reconcileUser_exact_former : ∃ granted d' row, signInFormer = (.ok granted, d') ∧
    formerDirectory.userById 0 = some row ∧
    UserReconciled lowerPlatform row ["/dev", "/dev"] calmAttempt.now formerDirectory granted d' := by
  obtain ⟨granted, hok⟩ := exists_ok (x := signInFormer) (by decide +kernel)
  obtain ⟨_, row, hrow, hreconciled⟩ :=
    (reconcileUser_exact formerDirectory_consistent).1 granted _ hok
  exact ⟨granted, _, row, hok, hrow, hreconciled⟩

end ConfigSync

end Soika
