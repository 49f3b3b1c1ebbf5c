import Soika.ConfigSync.UserGrants

/-! # Declared membership

Memberships follow the grants of the file along every run of applies, sign-ins and new accounts.
An apply computes them team by team over all users, a sign-in user by user over all teams. The
memberships of an orphaned team are frozen.
-/

namespace Soika

open Table

namespace ConfigSync

variable {P : Platform} {settings : ManagementSettings} {now : Timestamp} {d d' : Directory}

/-- The file grants the role to a user with this email and these groups. -/
def Grants (P : Platform) (t : TeamConfig) (email : String) (groups : List String)
    (role : TeamRole) : Prop :=
  (∃ g ∈ t.memberList, P.toLowercase g.email = P.toLowercase email ∧ g.role = role) ∨
    ∃ g ∈ t.groupList, g.group ∈ groups ∧ g.role = role

/-- The rows of a user in a team are what the file grants the user. -/
structure MembershipDeclared (P : Platform) (t : TeamConfig) (user : UserRow) (groups : List String)
    (team : Id) (members : List TeamMember) : Prop where
  member : (∃ m ∈ members, m.key = (team, user.id)) ↔ ∃ role, Grants P t user.email groups role
  role : ∀ m ∈ members, m.key = (team, user.id) → Grants P t user.email groups m.role ∧
    (Grants P t user.email groups .admin → m.role = .admin)
  once : (members.filter fun m => m.key = (team, user.id)).length ≤ 1

theorem mem_rolesFrom {t : TeamConfig} {email : String} {groups : List String} {role : TeamRole} :
    role ∈ rolesFrom (expectedEmails P t) (expectedGroups t) (P.toLowercase email) groups ↔
      Grants P t email groups role := by
  simp only [rolesFrom, expectedEmails, expectedGroups, Grants, List.mem_append, List.mem_map,
    List.mem_filter, List.mem_flatMap, decide_eq_true_eq]
  apply or_congr
  · constructor
    · rintro ⟨_, ⟨⟨g, hg, rfl⟩, hemail⟩, rfl⟩
      exact ⟨g, hg, hemail, rfl⟩
    · rintro ⟨g, hg, hemail, rfl⟩
      exact ⟨_, ⟨⟨g, hg, rfl⟩, hemail⟩, rfl⟩
  · constructor
    · rintro ⟨_, ⟨g, hg, rfl⟩, _, ⟨hgroup, rfl⟩, rfl⟩
      exact ⟨g, hg, hgroup, rfl⟩
    · rintro ⟨g, hg, hgroup, rfl⟩
      exact ⟨_, ⟨g, hg, rfl⟩, _, ⟨hgroup, rfl⟩, rfl⟩

theorem roleIn_eq_none {t : TeamConfig} {U : UserTables} {user : UserRow} :
    roleIn P U (expectedEmails P t) (expectedGroups t) user = none ↔
      ∀ role, ¬ Grants P t user.email (U.groupsOfUser user.id) role := by
  rw [roleIn, reconcileMemberships_eq_none, List.eq_nil_iff_forall_not_mem]
  simp only [mem_rolesFrom]

theorem roleIn_eq_some {t : TeamConfig} {U : UserTables} {user : UserRow} {role : TeamRole}
    (h : roleIn P U (expectedEmails P t) (expectedGroups t) user = some role) :
    Grants P t user.email (U.groupsOfUser user.id) role ∧
      (Grants P t user.email (U.groupsOfUser user.id) .admin → role = .admin) := by
  rw [roleIn] at h
  cases role with
  | admin =>
    rw [reconcileMemberships_eq_admin, mem_rolesFrom] at h
    exact ⟨h, fun _ => rfl⟩
  | contributor =>
    rw [reconcileMemberships_eq_contributor, mem_rolesFrom] at h
    obtain ⟨hadmin, hne⟩ := h
    refine ⟨?_, fun hgrants => absurd hgrants hadmin⟩
    obtain ⟨role, hrole⟩ := List.exists_mem_of_ne_nil _ hne
    rw [mem_rolesFrom] at hrole
    cases role with
    | admin => exact absurd hrole hadmin
    | contributor => exact hrole

theorem filter_key_length {α κ : Type} [DecidableEq κ] {key : α → κ} {rows : List α}
    (h : UniqueOn key rows) (k : κ) : (rows.filter fun a => key a = k).length ≤ 1 := by
  have hkeys : ((rows.filter fun a => key a = k).map key).Nodup := h.filter _
  have hall : ∀ l ∈ (rows.filter fun a => key a = k).map key, l = k := by
    intro l hl
    obtain ⟨a, ha, rfl⟩ := List.mem_map.mp hl
    exact of_decide_eq_true (List.mem_filter.mp ha).2
  rw [List.eq_replicate_of_mem hall, List.nodup_replicate, List.length_map] at hkeys
  exact hkeys

theorem membershipDeclared_of_role {T : TeamTables} {U : UserTables} {t : TeamConfig} {user : UserRow}
    {team : Id} (hT : T.Consistent) (h : (T.memberOf team user.id).map TeamMember.role =
      roleIn P U (expectedEmails P t) (expectedGroups t) user) :
    MembershipDeclared P t user (U.groupsOfUser user.id) team T.teamMembers := by
  have hlookup : ∀ m ∈ T.teamMembers, m.key = (team, user.id) →
      T.memberOf team user.id = some m := by
    intro m hm hkey
    rw [TeamTables.memberOf, ← hkey]
    exact hT.memberKeys.lookup_of_mem hm
  constructor
  case member =>
    constructor
    · rintro ⟨m, hm, hkey⟩
      rw [hlookup m hm hkey, Option.map_some] at h
      exact ⟨m.role, (roleIn_eq_some h.symm).1⟩
    · rintro ⟨role, hrole⟩
      cases hm : T.memberOf team user.id with
      | none =>
        rw [hm, Option.map_none] at h
        exact absurd hrole (roleIn_eq_none.mp h.symm role)
      | some m =>
        obtain ⟨hmem, hkey⟩ := lookup_eq_some_mem hm
        exact ⟨m, hmem, hkey⟩
  case role =>
    intro m hm hkey
    rw [hlookup m hm hkey, Option.map_some] at h
    exact roleIn_eq_some h.symm
  case once => exact filter_key_length hT.memberKeys _

/-- A declared team as it is stored: it has the grants of the file, and the known users have the
roles that these give them. -/
structure TeamDeclared (P : Platform) (known : List Id) (d : Directory) (t : TeamConfig)
    (row : TeamRow) : Prop where
  named : d.teamNamed t.name = some row
  live : row.orphanedAt = none
  emails : d.emailsOf row.id = expectedEmails P t
  groups : d.groupsOf row.id = expectedGroups t
  roles : ∀ user ∈ d.users, user.id ∈ known → (d.memberOf row.id user.id).map TeamMember.role =
    roleIn P d.toUserTables (expectedEmails P t) (expectedGroups t) user

theorem map_role_memberAfter (id u : Id) (role : Option TeamRole) (now : Timestamp)
    (old : Option TeamMember) :
    (TeamTables.memberAfter id u role now old).map TeamMember.role = role := by
  cases role with
  | none => rfl
  | some role => cases old <;> rfl

theorem TeamSynced.declared {t : TeamConfig} {old : Option TeamView} {known : List Id}
    (h : TeamSynced P d.toUserTables t now old (d.toTeamTables.view t.name))
    (hd : d.Consistent) : ∃ row, TeamDeclared P known d t row := by
  obtain ⟨id, hview⟩ := h
  obtain ⟨row, hrow, hsame⟩ := Option.map_eq_some_iff.mp hview
  have hid : row = upsertedRow P t now id old := congrArg TeamView.row hsame
  refine ⟨row, ?_⟩
  constructor
  case named => exact hrow
  case live => rw [hid, upsertedRow_orphanedAt]
  case emails => exact congrArg TeamView.emails hsame
  case groups => exact congrArg TeamView.groups hsame
  case roles =>
    intro user huser _
    have hmember : d.memberOf row.id user.id = _ := congrFun (congrArg TeamView.members hsame) user.id
    have hlookup : d.userById user.id = some user := hd.userIds.lookup_of_mem huser
    rw [hmember]
    simp only [syncedView, reconciledMember, hlookup]
    exact map_role_memberAfter ..

theorem TeamDeclared.reconciled {known : List Id} {t : TeamConfig} {row : TeamRow} {user : UserRow}
    {groups : List String} {granted : Bool} (h : TeamDeclared P known d t row)
    (hd : d.Consistent) (huser : user ∈ d.users)
    (hreconciled : UserReconciled P user groups now d granted d') :
    TeamDeclared P (user.id :: known) d' t row := by
  obtain ⟨ms, hteams⟩ := hreconciled.teams
  have hemails : d'.emailsOf row.id = expectedEmails P t := by
    rw [hteams]
    exact h.emails
  have hgroups : d'.groupsOf row.id = expectedGroups t := by
    rw [hteams]
    exact h.groups
  constructor
  case named =>
    rw [hteams]
    exact h.named
  case live => exact h.live
  case emails => exact hemails
  case groups => exact hgroups
  case roles =>
    intro u hu hknown
    rw [hreconciled.users] at hu ⊢
    by_cases heq : u.id = user.id
    · obtain rfl : u = user := hd.userIds.eq_of_key hu huser heq
      have hlive := hreconciled.live row (TeamTables.teamNamed_mem h.named).1 h.live
      rw [hlive, map_role_memberAfter, storedRole, hemails, hgroups, hreconciled.users]
    · have hsame := h.roles u hu ((List.mem_cons.mp hknown).resolve_left heq)
      rw [hreconciled.others row.id u.id heq, hsame, roleIn, roleIn, groupsOfUser_regrouped,
        if_neg (Ne.symm heq)]

/-- What happens to the directory: an apply of a file, a sign-in that reconciles its user, or a new
account. -/
inductive Occurrence (P : Platform) (settings : ManagementSettings) where
  | apply (write : WritePolicy) (parsed : ParsedFile P settings) (retention : ℤ)
    (attempts : ℕ → Attempt)
  | reconcileUser (write : WritePolicy) (user : Id) (groups : List String) (attempts : ℕ → Attempt)
  | register (row : UserRow)

/-- A directory, the file that was applied last, and the users that were there then or have been
reconciled since. -/
structure Tracked where
  directory : Directory
  file : Option ConfigFile
  known : List Id

namespace Tracked

def start (d : Directory) : Tracked := ⟨d, none, []⟩

def after (m : Tracked) : Occurrence P settings → Tracked
  | .apply write parsed retention attempts =>
    match ConfigSync.apply P write parsed.file settings retention attempts m.directory with
    | (.ok _, d) => ⟨d, some parsed.file, d.users.map UserRow.id⟩
    | (.error _, d) => { m with directory := d }
  | .reconcileUser write user groups attempts =>
    match ConfigSync.reconcileUser P write user groups attempts m.directory with
    | (.ok _, d) => { m with directory := d, known := user :: m.known }
    | (.error _, d) => { m with directory := d }
  | .register row =>
    { m with directory := { m.directory with
        users := m.directory.users ++ [{ row with id := m.directory.nextId }]
        nextId := m.directory.nextId + 1 } }

def run (m : Tracked) (occurrences : List (Occurrence P settings)) : Tracked :=
  occurrences.foldl after m

theorem run_nil (m : Tracked) : m.run ([] : List (Occurrence P settings)) = m := rfl

theorem run_cons (m : Tracked) (o : Occurrence P settings) (rest : List (Occurrence P settings)) :
    m.run (o :: rest) = (m.after o).run rest := rfl

end Tracked

/-- The teams of the file that was applied last are declared. -/
structure Governed (P : Platform) (m : Tracked) : Prop where
  consistent : m.directory.Consistent
  known : ∀ u ∈ m.known, ∃ user ∈ m.directory.users, user.id = u
  declared : ∀ file, m.file = some file → ∀ t ∈ file.teamList,
    ∃ row, TeamDeclared P m.known m.directory t row

theorem Governed.start (hd : d.Consistent) : Governed P (Tracked.start d) := by
  constructor
  · exact hd
  · rintro u ⟨⟩
  · rintro file ⟨⟩

theorem Tracked.after_cases {m : Tracked} (hm : m.directory.Consistent) (o : Occurrence P settings) :
    m.after o = m ∨
    (∃ file retention now d' report, m.after o = ⟨d', some file, d'.users.map UserRow.id⟩ ∧
      Applied P file settings retention now m.directory d' report) ∨
    (∃ user ∈ m.directory.users, ∃ groups now granted d',
      m.after o = { m with directory := d', known := user.id :: m.known } ∧
      UserReconciled P user groups now m.directory granted d') ∨
    ∃ row, o = .register row := by
  cases o with
  | apply write parsed retention attempts =>
    rcases apply_cases write retention attempts hm parsed.accepted with
      ⟨n, report, d', happly, -, happlied⟩ | ⟨e, e', happly, -, -⟩
    · refine .inr (.inl ⟨_, _, _, d', report, ?_, happlied⟩)
      simp only [Tracked.after, happly]
    · left
      simp only [Tracked.after, happly]
  | reconcileUser write user groups attempts =>
    have hcases := @reconcileUser_cases P write user groups attempts m.directory hm
    rcases hcases with ⟨n, row, granted, d', h, hrow, hreconciled⟩ | ⟨e, h⟩
    · obtain ⟨hmem, rfl⟩ := lookup_eq_some_mem hrow
      refine .inr (.inr (.inl ⟨row, hmem, groups, _, granted, d', ?_, hreconciled⟩))
      simp only [Tracked.after, h]
    · left
      simp only [Tracked.after, h]
  | register row => exact .inr (.inr (.inr ⟨row, rfl⟩))

theorem Governed.registered {m : Tracked} (h : Governed P m) (row : UserRow) :
    Governed P (m.after (.register row : Occurrence P settings)) := by
  have hfresh : ∀ u ∈ m.directory.users, u.id ≠ m.directory.nextId :=
    fun u hu => (h.consistent.userFresh u hu).ne
  constructor
  case consistent =>
    exact { h.consistent with
      userIds := h.consistent.userIds.append_single hfresh
      teamFresh := fun t ht => Nat.lt_succ_of_lt (h.consistent.teamFresh t ht)
      projectFresh := fun p hp => Nat.lt_succ_of_lt (h.consistent.projectFresh p hp)
      userFresh := forall_mem_snoc (fun u hu => Nat.lt_succ_of_lt (h.consistent.userFresh u hu))
        (Nat.lt_succ_self _) }
  case known =>
    intro u hu
    obtain ⟨user, huser, hid⟩ := h.known u hu
    exact ⟨user, List.mem_append_left _ huser, hid⟩
  case declared =>
    intro file hfile t ht
    obtain ⟨team, hteam⟩ := h.declared file hfile t ht
    refine ⟨team, hteam.named, hteam.live, hteam.emails, hteam.groups, ?_⟩
    intro user huser hknown
    rcases List.mem_append.mp huser with huser | huser
    · exact hteam.roles user huser hknown
    · obtain rfl := List.mem_singleton.mp huser
      obtain ⟨old, hold, hid⟩ := h.known _ hknown
      exact absurd hid (hfresh old hold)

theorem Governed.after {m : Tracked} (h : Governed P m) (o : Occurrence P settings) :
    Governed P (m.after o) := by
  rcases m.after_cases h.consistent o with hsame | ⟨file, retention, now, d', report, hafter, happlied⟩ |
    ⟨user, huser, groups, now, granted, d', hafter, hreconciled⟩ | ⟨row, rfl⟩
  · rwa [hsame]
  · rw [hafter]
    constructor
    · exact happlied.consistent
    · intro u hu
      exact List.mem_map.mp hu
    · rintro _ ⟨⟩ t ht
      have hsynced := happlied.declaredTeams t ht
      rw [← happlied.users] at hsynced
      exact hsynced.declared happlied.consistent
  · rw [hafter]
    have husers : d'.users = m.directory.users := by rw [hreconciled.users, regrouped]
    constructor
    · exact hreconciled.consistent
    · intro u hu
      rw [husers]
      rcases List.mem_cons.mp hu with rfl | hu
      · exact ⟨user, huser, rfl⟩
      · exact h.known u hu
    · intro file hfile t ht
      obtain ⟨row, hrow⟩ := h.declared file hfile t ht
      exact ⟨row, hrow.reconciled h.consistent huser hreconciled⟩
  · exact h.registered row

theorem Governed.run {m : Tracked} (h : Governed P m) (occurrences : List (Occurrence P settings)) :
    Governed P (m.run occurrences) := by
  induction occurrences generalizing m with
  | nil => exact h
  | cons o occurrences ih =>
    rw [Tracked.run_cons]
    exact ih (h.after o)

theorem Applied.frozen {file : ConfigFile} {retention : ℤ} {report : SyncReport}
    (h : Applied P file settings retention now d d' report) {row : TeamRow} (hrow : row ∈ d'.teams)
    (horphaned : row.orphanedAt ≠ none) : d'.memberOf row.id = d.memberOf row.id := by
  have hview : d'.toTeamTables.view row.name = some (d'.toTeamTables.viewOf row) :=
    view_of_named (h.consistent.teams.teamNamed_of_mem hrow)
  cases hteams : file.teams with
  | none =>
    rw [h.uiTeams hteams] at hview
    obtain ⟨v, -, heq⟩ := Option.map_eq_some_iff.mp hview
    have hsame : v.row.unorphan = row := congrArg TeamView.row heq
    exact absurd (congrArg TeamRow.orphanedAt hsame).symm horphaned
  | some ts =>
    by_cases hundeclared : UndeclaredTeam ts row.name
    · rw [h.otherTeams ts hteams row.name hundeclared] at hview
      cases hpolicy : settings.teamOrphanPolicy with
      | delete =>
        rw [hpolicy] at hview
        cases hview
      | readonly =>
        rw [hpolicy] at hview
        obtain ⟨v, hv, heq⟩ := Option.map_eq_some_iff.mp hview
        obtain ⟨old, hold, rfl⟩ := Option.map_eq_some_iff.mp hv
        have hmembers : d.memberOf old.id = d'.memberOf row.id := congrArg TeamView.members heq
        have hid : old.id = row.id := by
          have hsame : orphanedTeam now old = row := congrArg TeamView.row heq
          rw [← hsame, orphanedTeam]
          split <;> rfl
        rw [← hmembers, hid]
    · simp only [UndeclaredTeam, not_forall, not_not] at hundeclared
      obtain ⟨t, ht, hname⟩ := hundeclared
      have hmem : t ∈ file.teamList := by rwa [ConfigFile.teamList, hteams, Option.getD_some]
      obtain ⟨id, hsynced⟩ := h.declaredTeams t hmem
      rw [hname, hview] at hsynced
      have hsame : row = upsertedRow P t now id _ := congrArg TeamView.row (Option.some.inj hsynced)
      exact absurd (hsame ▸ upsertedRow_orphanedAt ..) horphaned

/-- The team is there, and is orphaned. -/
def OrphanedTeam (d : Directory) (team : Id) : Prop :=
  ∃ row ∈ d.teams, row.id = team ∧ row.orphanedAt ≠ none

instance (d : Directory) (team : Id) : Decidable (OrphanedTeam d team) :=
  inferInstanceAs (Decidable (∃ row ∈ d.teams, _))

theorem Governed.frozen {m : Tracked} (h : Governed P m) (o : Occurrence P settings) {team : Id}
    (horphaned : OrphanedTeam (m.after o).directory team) :
    (m.after o).directory.memberOf team = m.directory.memberOf team := by
  obtain ⟨row, hrow, rfl, hnone⟩ := horphaned
  rcases m.after_cases h.consistent o with hsame | ⟨file, retention, now, d', report, hafter, happlied⟩ |
    ⟨user, huser, groups, now, granted, d', hafter, hreconciled⟩ | ⟨new, rfl⟩
  · rw [hsame]
  · rw [hafter] at hrow ⊢
    exact happlied.frozen hrow hnone
  · rw [hafter] at hrow ⊢
    have hmem : row ∈ m.directory.teams := by
      obtain ⟨ms, hteams⟩ := hreconciled.teams
      rwa [hteams] at hrow
    funext u
    by_cases heq : u = user.id
    · rw [heq]
      exact hreconciled.orphaned row hmem hnone
    · exact hreconciled.others row.id u heq
  · rfl

theorem declared_membership (hd : d.Consistent) (occurrences : List (Occurrence P settings))
    {m : Tracked} (hm : m = (Tracked.start d).run occurrences) {file : ConfigFile}
    (hfile : m.file = some file) {t : TeamConfig} (ht : t ∈ file.teamList) :
    ∃ row ∈ m.directory.teams, row.name = t.name ∧ row.orphanedAt = none ∧
      ∀ user ∈ m.directory.users, user.id ∈ m.known → MembershipDeclared P t user
        (m.directory.groupsOfUser user.id) row.id m.directory.teamMembers := by
  have hgoverned : Governed P m := hm ▸ (Governed.start hd).run occurrences
  obtain ⟨row, hrow⟩ := hgoverned.declared file hfile t ht
  obtain ⟨hmem, hname⟩ := TeamTables.teamNamed_mem hrow.named
  refine ⟨row, hmem, hname, hrow.live, ?_⟩
  intro user huser hknown
  exact membershipDeclared_of_role hgoverned.consistent.teams (hrow.roles user huser hknown)

theorem Tracked.after_apply_file {m : Tracked} {write : WritePolicy} {parsed : ParsedFile P settings}
    {retention : ℤ} {attempts : ℕ → Attempt}
    (h : (apply P write parsed.file settings retention attempts m.directory).1.isOk = true) :
    (m.after (.apply write parsed retention attempts)).file = some parsed.file := by
  obtain ⟨report, hok⟩ := exists_ok h
  rw [Tracked.after, hok]

theorem Tracked.after_reconcileUser_file (m : Tracked) (write : WritePolicy) (user : Id)
    (groups : List String) (attempts : ℕ → Attempt) :
    (m.after (.reconcileUser write user groups attempts : Occurrence P settings)).file = m.file := by
  rw [Tracked.after]
  split <;> rfl

def applyOccurrence : Occurrence lowerPlatform yamlSettings :=
  .apply oneRun parsedCore 100 fun _ => calmAttempt

def signInOccurrence : Occurrence lowerPlatform yamlSettings :=
  .reconcileUser oneRun 0 ["/dev"] fun _ => calmAttempt

theorem declared_membership_core : ∃ m : Tracked,
    m = (Tracked.start formerDirectory).run [applyOccurrence, signInOccurrence] ∧
    ∃ row ∈ m.directory.teams, row.name = coreTeam.name ∧ row.orphanedAt = none ∧
      ∀ user ∈ m.directory.users, user.id ∈ m.known → MembershipDeclared lowerPlatform coreTeam user
        (m.directory.groupsOfUser user.id) row.id m.directory.teamMembers := by
  have hok : (apply lowerPlatform oneRun parsedCore.file yamlSettings 100
      (fun _ => calmAttempt) formerDirectory).1.isOk = true := by decide +kernel
  have happlied : ((Tracked.start formerDirectory).after applyOccurrence).file = some coreFile :=
    Tracked.after_apply_file hok
  have hkept : ∀ m : Tracked, (m.after signInOccurrence).file = m.file :=
    fun m => m.after_reconcileUser_file ..
  have hfile : ((Tracked.start formerDirectory).run [applyOccurrence, signInOccurrence]).file =
      some coreFile := by rw [Tracked.run_cons, Tracked.run_cons, Tracked.run_nil, hkept, happlied]
  exact ⟨_, rfl, declared_membership formerDirectory_consistent _ rfl hfile
    (List.mem_singleton_self coreTeam)⟩

theorem orphaned_membership_frozen (hd : d.Consistent) (before after : List (Occurrence P settings))
    {m : Tracked} (hm : m = (Tracked.start d).run before) {team : Id}
    (horphaned : ∀ n ≤ after.length, OrphanedTeam (m.run (after.take n)).directory team) :
    (m.run after).directory.memberOf team = m.directory.memberOf team := by
  have hgoverned : Governed P m := hm ▸ (Governed.start hd).run before
  clear hm
  induction after generalizing m with
  | nil => rfl
  | cons o after ih =>
    have hstep := hgoverned.frozen o (horphaned 1 (by simp))
    have hrest : ∀ n ≤ after.length, OrphanedTeam ((m.after o).run (after.take n)).directory team := by
      intro n hn
      have := horphaned (n + 1) (Nat.succ_le_succ hn)
      rwa [List.take_succ_cons, Tracked.run_cons] at this
    rw [Tracked.run_cons, ih hrest (hgoverned.after o), hstep]

theorem orphaned_membership_frozen_former :
    ∃ m : Tracked, m = (Tracked.start formerDirectory).run [applyOccurrence] ∧
      (m.run [signInOccurrence]).directory.memberOf 1 = m.directory.memberOf 1 :=
  ⟨_, rfl, orphaned_membership_frozen formerDirectory_consistent [applyOccurrence]
    [signInOccurrence] rfl (by decide +kernel)⟩

end ConfigSync

end Soika
