import Soika.Adapters.DirectoryViews
import Soika.ConfigSync.Apply

/-! # What the synchronization of a team does

Each statement is described by the state it leads to. From these, `sync_team` changes the
view of the declared team alone: its row, its grants, and the membership of every user.
-/

namespace Soika

open Table

namespace Session

def withTeams (s : Session) (T : TeamTables) : Session :=
  { s with db := { s.db with toTeamTables := T } }

def withProjects (s : Session) (T : ProjectTables) : Session :=
  { s with db := { s.db with toProjectTables := T } }

def withMemberGrants (s : Session) (rows : List MemberGrantRow) : Session :=
  s.withTeams { s.db.toTeamTables with memberGrants := rows }

def withGroupGrants (s : Session) (rows : List GroupGrantRow) : Session :=
  s.withTeams { s.db.toTeamTables with groupGrants := rows }

def withTeamMembers (s : Session) (rows : List TeamMember) : Session :=
  s.withTeams { s.db.toTeamTables with teamMembers := rows }

/-- The constraints of the schema hold, and the report counts its actions. -/
structure Sound (s : Session) : Prop where
  db : s.db.Consistent
  report : s.report.Counted

structure OnlyTeams (s s' : Session) : Prop where
  projects : s'.db.toProjectTables = s.db.toProjectTables
  users : s'.db.toUserTables = s.db.toUserTables
  settings : s'.db.notificationSettings = s.db.notificationSettings

variable {s s' s'' : Session} {T : TeamTables}

theorem OnlyTeams.refl (s : Session) : OnlyTeams s s := ⟨rfl, rfl, rfl⟩

theorem OnlyTeams.trans (h : OnlyTeams s s') (h' : OnlyTeams s' s'') : OnlyTeams s s'' :=
  ⟨h'.projects.trans h.projects, h'.users.trans h.users, h'.settings.trans h.settings⟩

theorem Sound.withTeams (h : s.Sound) (hT : T.Consistent)
    (hids : ∀ id, T.HasTeam id ↔ s.db.HasTeam id) : (s.withTeams T).Sound where
  db := { h.db with
    teams := hT
    projectTeam := fun p hp => (hids _).mpr (h.db.projectTeam p hp)
    teamFresh := fun t ht => by
      obtain ⟨t', ht', heq⟩ := (hids t.id).mp ⟨t, ht, rfl⟩
      exact heq ▸ h.db.teamFresh t' ht' }
  report := h.report

theorem Sound.record (h : s.Sound) (entity key : String) (action : SyncActionKind) :
    ({ s with report := s.report.record entity key action } : Session).Sound :=
  ⟨h.db, h.report.record entity key action⟩

end Session

namespace ConfigSync

open Session

variable {P : Platform} {R : Error → Prop} {s : Session} {α : Type}

def Expects (R : Error → Prop) (w : SyncWorld) : Prop := ∀ e, w.fault = some e → R (.db e)

/-- From `s`, the transaction returns with `Q` or fails with an expected error. -/
abbrev Yields (R : Error → Prop) (p : SyncTx α) (Q : α → Session → Prop) (s : Session) : Prop :=
  Transaction.Ensures (Expects R) R p Q s

variable {Q : α → Session → Prop}

theorem yields_execute {f : SyncWorld → Directory → Except Error (α × Directory)}
    (hok : ∀ w a d, f w s.db = .ok (a, d) → Q a { s with db := d })
    (herror : ∀ w e, f w s.db = .error e → R e) : Yields R (execute f) Q s := by
  refine .statement (fun w a s' hw h => ?_) fun w e hw h => ?_
  · cases hf : w.fault with
    | some e => simp [hf] at h
    | none =>
      rcases hd : f w s.db with e | ⟨b, d⟩
      · simp [hf, hd] at h
      · simp only [hf, hd, Except.ok.injEq, Prod.mk.injEq] at h
        obtain ⟨rfl, rfl⟩ := h
        exact hok w b d hd
  · cases hf : w.fault with
    | some e' =>
      simp only [hf, Except.error.injEq] at h
      exact h ▸ hw e' hf
    | none =>
      rcases hd : f w s.db with e' | ⟨b, d⟩
      · simp only [hf, hd, Except.error.injEq] at h
        exact h ▸ herror w e' hd
      · simp [hf, hd] at h

theorem yields_select {rows : Directory → List α} {Q : List α → Session → Prop}
    (h : ∀ rows', rows'.Perm (rows s.db) → Q rows' s) : Yields R (select rows) Q s :=
  yields_execute (fun w a d hf => by
    cases hf
    exact h _ (w.order_perm _)) (fun w e hf => by cases hf)

theorem yields_fetch {value : Directory → α} (h : Q (value s.db) s) :
    Yields R (fetch value) Q s :=
  yields_execute (fun _ _ _ hf => by cases hf; exact h) (fun _ _ hf => by cases hf)

theorem yields_update {f : Directory → Directory} {Q : Unit → Session → Prop}
    (h : Q () { s with db := f s.db }) : Yields R (update f) Q s :=
  yields_execute (fun _ _ _ hf => by cases hf; exact h) (fun _ _ hf => by cases hf)

theorem yields_updateTeams {f : TeamTables → TeamTables} {Q : Unit → Session → Prop}
    (h : Q () (s.withTeams (f s.db.toTeamTables))) : Yields R (updateTeams f) Q s :=
  yields_update h

theorem yields_updateProjects {f : ProjectTables → ProjectTables} {Q : Unit → Session → Prop}
    (h : Q () (s.withProjects (f s.db.toProjectTables))) : Yields R (updateProjects f) Q s :=
  yields_update h

theorem yields_record {entity key : String} {action : SyncActionKind} {Q : Unit → Session → Prop}
    (h : Q () { s with report := s.report.record entity key action }) :
    Yields R (record entity key action) Q s :=
  .modify h

def refreshedRow (row : TeamRow) (changed : Bool) (now : Timestamp) : TeamRow :=
  if row.orphanedAt.isSome then { row with orphanedAt := none, updatedAt := now }
  else if changed then { row with updatedAt := now }
  else row

def teamChanged (P : Platform) (t : TeamConfig) (v : TeamView) : Bool :=
  grantsChanged P t v.emails v.groups

def teamEntries (P : Platform) (t : TeamConfig) (old : Option TeamView) : List SyncAction :=
  [⟨"team", t.name, planPresent old.isSome (old.any fun v => v.row.orphanedAt.isSome)
    (old.any (teamChanged P t))⟩]

/-- The row that `upsert_team` leaves; `id` is that of a new team. -/
def upsertedRow (P : Platform) (t : TeamConfig) (now : Timestamp) (id : Id)
    (old : Option TeamView) : TeamRow :=
  match old with
  | some v => refreshedRow v.row (teamChanged P t v) now
  | none => ⟨id, t.name, now, now, none⟩

theorem refreshedRow_id (row : TeamRow) (changed : Bool) (now : Timestamp) :
    (refreshedRow row changed now).id = row.id := by
  unfold refreshedRow
  split
  · rfl
  · split <;> rfl

def membersOf (v : Option TeamView) (u : Id) : Option TeamMember := v.bind fun v => v.members u

def ownedOf (v : Option TeamView) : List TeamOwned := v.elim [] TeamView.owned

/-- What `upsert_team` leads to: the row is there, and only it has changed. -/
structure Upserted (P : Platform) (t : TeamConfig) (now : Timestamp) (s : Session) (id : Id)
    (s' : Session) : Prop where
  sound : s'.Sound
  only : s.OnlyTeams s'
  outside : TeamTables.SameOutside id t.name s.db.toTeamTables s'.db.toTeamTables
  row : s'.db.teamNamed t.name =
    some (upsertedRow P t now id (s.db.toTeamTables.view t.name))
  rowId : (upsertedRow P t now id (s.db.toTeamTables.view t.name)).id = id
  members : s'.db.memberOf id = membersOf (s.db.toTeamTables.view t.name)
  owned : s'.db.ownedOf id = ownedOf (s.db.toTeamTables.view t.name)
  actions : s'.report.actions =
    s.report.actions ++ teamEntries P t (s.db.toTeamTables.view t.name)

theorem refreshTeam_yields {name : String} {row : TeamRow} {changed : Bool} {now : Timestamp}
    {Q : Unit → Session → Prop}
    (h : ∀ f : TeamRow → TeamRow, (∀ t, (f t).id = t.id) → (∀ t, (f t).name = t.name) →
      f row = refreshedRow row changed now →
      Q () { s.withTeams (s.db.toTeamTables.modifyTeam row.id f) with
        report := s.report.record "team" name
          (planPresent true row.orphanedAt.isSome changed) }) :
    Yields R (refreshTeam name row changed now) Q s := by
  unfold refreshTeam
  split
  · rename_i horphaned
    refine .seq (yields_record (yields_updateTeams ?_))
    have := h (fun t => { t with orphanedAt := none, updatedAt := now }) (fun _ => rfl)
      (fun _ => rfl) (if_pos horphaned).symm
    simpa [planPresent, horphaned, withTeams] using this
  · rename_i horphaned
    split
    · rename_i hchanged
      refine .seq (yields_record (yields_updateTeams ?_))
      have := h (fun t => { t with updatedAt := now }) (fun _ => rfl) (fun _ => rfl)
        (by simp [refreshedRow, horphaned, hchanged])
      simpa [planPresent, horphaned, hchanged, withTeams] using this
    · rename_i hchanged
      refine yields_record ?_
      have := h id (fun _ => rfl) (fun _ => rfl) (by simp [refreshedRow, horphaned, hchanged])
      simpa [planPresent, horphaned, hchanged, TeamTables.modifyTeam, modify_id, withTeams]
        using this

theorem grantsChanged_perm {t : TeamConfig} {emails emails' groups groups' : List (String × TeamRole)}
    (hemails : emails'.Perm emails) (hgroups : groups'.Perm groups) :
    grantsChanged P t emails' groups' = grantsChanged P t emails groups := by
  rw [grantsChanged, grantsChanged, List.toFinset_eq_of_perm _ _ hemails,
    List.toFinset_eq_of_perm _ _ hgroups]

theorem hasTeam_modifyTeam {T : TeamTables} {f : TeamRow → TeamRow} (hf : ∀ t, (f t).id = t.id)
    (id i : Id) : (T.modifyTeam id f).HasTeam i ↔ T.HasTeam i := by
  constructor
  · rintro ⟨t, ht, rfl⟩
    obtain ⟨t', ht', rfl⟩ := mem_modify.mp ht
    exact ⟨t', ht', by split <;> simp [hf]⟩
  · exact fun h => TeamTables.hasTeam_map (fun t => by split <;> simp [hf]) h

theorem view_of_named {T : TeamTables} {name : String} {row : TeamRow}
    (h : T.teamNamed name = some row) : T.view name = some (T.viewOf row) := by
  rw [TeamTables.view, h, Option.map_some]

theorem view_of_not_named {T : TeamTables} {name : String} (h : T.teamNamed name = none) :
    T.view name = none := by
  rw [TeamTables.view, h, Option.map_none]

theorem not_hasTeam_nextId {d : Directory} (h : d.Consistent) : ¬ d.HasTeam d.nextId := by
  rintro ⟨t, ht, heq⟩
  exact (h.teamFresh t ht).ne heq

theorem Sound.insertTeam (hs : s.Sound) {name : String} (now : Timestamp)
    (hname : s.db.teamNamed name = none) :
    ({ s with db := { s.db with
      toTeamTables := s.db.addTeam ⟨s.db.nextId, name, now, now, none⟩
      nextId := s.db.nextId + 1 } } : Session).Sound where
  db := {
    teams := hs.db.teams.addTeam (fun t ht => (hs.db.teamFresh t ht).ne) hname
    projects := hs.db.projects
    projectTeam := fun p hp => by
      obtain ⟨t, ht, heq⟩ := hs.db.projectTeam p hp
      exact ⟨t, List.mem_append_left _ ht, heq⟩
    userIds := hs.db.userIds
    teamFresh := forall_mem_snoc (fun t ht => Nat.lt_succ_of_lt (hs.db.teamFresh t ht))
      (Nat.lt_succ_self _)
    projectFresh := fun p hp => Nat.lt_succ_of_lt (hs.db.projectFresh p hp)
    userFresh := fun u hu => Nat.lt_succ_of_lt (hs.db.userFresh u hu) }
  report := hs.report

theorem upsertTeam_yields (hs : s.Sound) (t : TeamConfig) (now : Timestamp) :
    Yields R (upsertTeam P t now) (fun id s' => Upserted P t now s id s') s := by
  refine .seq (yields_fetch ?_)
  cases hrow : s.db.teamNamed t.name with
  | some row =>
    have hview := view_of_named hrow
    refine .seq (yields_select fun emails hemails => .seq (yields_select fun groups hgroups => ?_))
    rw [grantsChanged_perm hemails hgroups]
    refine .seq (refreshTeam_yields fun f hid hname hf => .ret ?_)
    have hT : (s.db.modifyTeam row.id f).Consistent := hs.db.teams.modifyTeam hid hname
    exact {
      sound := (hs.withTeams hT (hasTeam_modifyTeam hid row.id)).record _ _ _
      only := ⟨rfl, rfl, rfl⟩
      outside := hs.db.teams.sameOutside_modifyTeam hrow hname
      row := by
        change (s.db.modifyTeam row.id f).teamNamed t.name = _
        rw [TeamTables.teamNamed_modifyTeam hname, hrow, hview, Option.map_some, if_pos rfl, hf]
        rfl
      rowId := by
        rw [hview]
        exact refreshedRow_id ..
      members := by
        rw [hview]
        rfl
      owned := by
        rw [hview]
        rfl
      actions := by
        rw [hview]
        exact SyncReport.record_actions .. }
  | none =>
    have hview := view_of_not_named hrow
    refine .seq (yields_execute (fun w id d hinsert => ?_) fun w e hinsert => ?_)
    · simp only [hrow, Except.ok.injEq, Prod.mk.injEq] at hinsert
      obtain ⟨rfl, rfl⟩ := hinsert
      refine .seq (yields_record (.ret ?_))
      let row : TeamRow := ⟨s.db.nextId, t.name, now, now, none⟩
      have hnew : s.db.toTeamTables.viewOf row = ⟨row, [], [], fun _ => none, []⟩ :=
        hs.db.teams.viewOf_of_not_hasTeam (not_hasTeam_nextId hs.db)
      exact {
        sound := (Sound.insertTeam hs now hrow).record _ _ _
        only := ⟨rfl, rfl, rfl⟩
        outside := TeamTables.sameOutside_addTeam row
        row := by
          refine (TeamTables.teamNamed_addTeam _ _).trans ?_
          rw [hrow, hview, Option.none_or, if_pos rfl]
          rfl
        rowId := by
          rw [hview]
          rfl
        members := by
          rw [hview]
          exact congrArg TeamView.members hnew
        owned := by
          rw [hview]
          exact congrArg TeamView.owned hnew
        actions := by
          rw [hview]
          exact SyncReport.record_actions .. }
    · simp only [hrow, reduceCtorEq] at hinsert

theorem insertMemberGrants_yields {id : Id} {gs : List EmailGrant}
    (hkeys : (gs.map fun g => P.toLowercase g.email).Nodup)
    (hnone : ∀ g ∈ s.db.memberGrants, g.teamId ≠ id) :
    Yields R (Transaction.each (fun g : EmailGrant =>
      insertMemberGrant P ⟨id, P.toLowercase g.email, g.role⟩) gs)
      (fun _ s' => s' = s.withMemberGrants (s.db.memberGrants ++
        gs.map fun g => ⟨id, P.toLowercase g.email, g.role⟩)) s := by
  refine .appendEach s.withMemberGrants (fun g : EmailGrant => ⟨id, P.toLowercase g.email, g.role⟩)
    (fun g => (g.teamId, g.email)) ?_ (fun g hg _ _ heq => hnone g hg (congrArg Prod.fst heq)) fun g _ rows hrows => ?_
  · exact (List.map_map (f := fun g : EmailGrant => P.toLowercase g.email)
      (g := fun email => (id, email)) (l := gs)) ▸ hkeys.map fun _ _ h => congrArg Prod.snd h
  · have hnew : ¬ ∃ h ∈ rows, h.teamId = id ∧ h.email = P.toLowercase g.email :=
      fun ⟨h, hmem, hteam, hemail⟩ => hrows h hmem (by rw [hteam, hemail])
    refine yields_execute (fun w u d hd => ?_) fun w e hd => ?_
    · obtain rfl : _ = d := congrArg Prod.snd (Except.ok.inj ((if_neg hnew).symm.trans hd))
      rfl
    · cases (if_neg hnew).symm.trans hd

theorem insertGroupGrants_yields {id : Id} {gs : List GroupGrant}
    (hkeys : (gs.map GroupGrant.group).Nodup) (hnone : ∀ g ∈ s.db.groupGrants, g.teamId ≠ id) :
    Yields R (Transaction.each (fun g : GroupGrant => insertGroupGrant P ⟨id, g.group, g.role⟩) gs)
      (fun _ s' => s' = s.withGroupGrants (s.db.groupGrants ++
        gs.map fun g => ⟨id, g.group, g.role⟩)) s := by
  refine .appendEach s.withGroupGrants (fun g : GroupGrant => ⟨id, g.group, g.role⟩)
    (fun g => (g.teamId, g.groupPath)) ?_ (fun g hg _ _ heq => hnone g hg (congrArg Prod.fst heq)) fun g _ rows hrows => ?_
  · exact (List.map_map (f := GroupGrant.group) (g := fun group => (id, group)) (l := gs)) ▸
      hkeys.map fun _ _ h => congrArg Prod.snd h
  · have hnew : ¬ ∃ h ∈ rows, h.teamId = id ∧ h.groupPath = g.group :=
      fun ⟨h, hmem, hteam, hgroup⟩ => hrows h hmem (by rw [hteam, hgroup])
    refine yields_execute (fun w u d hd => ?_) fun w e hd => ?_
    · obtain rfl : _ = d := congrArg Prod.snd (Except.ok.inj ((if_neg hnew).symm.trans hd))
      rfl
    · cases (if_neg hnew).symm.trans hd

def regranted (P : Platform) (t : TeamConfig) (id : Id) (T : TeamTables) : TeamTables :=
  { T with
    memberGrants := remove MemberGrantRow.teamId id T.memberGrants ++
      t.memberList.map fun g => ⟨id, P.toLowercase g.email, g.role⟩
    groupGrants := remove GroupGrantRow.teamId id T.groupGrants ++
      t.groupList.map fun g => ⟨id, g.group, g.role⟩ }

theorem select_map_of_key {α β κ : Type} [DecidableEq κ] {key : β → κ} {k : κ} {f : α → β}
    (hf : ∀ a, key (f a) = k) (l : κ) (xs : List α) :
    Table.select key l (xs.map f) = if k = l then xs.map f else [] := by
  split
  · rename_i h
    exact List.filter_eq_self.mpr fun b hb => by
      obtain ⟨a, _, rfl⟩ := List.mem_map.mp hb
      simp [hf, h]
  · rename_i h
    exact List.filter_eq_nil_iff.mpr fun b hb => by
      obtain ⟨a, _, rfl⟩ := List.mem_map.mp hb
      simp [hf, h]

theorem emailsOf_regranted (t : TeamConfig) (id i : Id) (T : TeamTables) :
    (regranted P t id T).emailsOf i = if id = i then expectedEmails P t else T.emailsOf i := by
  rw [TeamTables.emailsOf, regranted, select_append, select_map_of_key (k := id) fun _ => rfl]
  split
  · subst i
    rw [select_remove_self, List.nil_append, List.map_map]
    rfl
  · rename_i h
    rw [select_remove_ne (Ne.symm h), List.append_nil]
    rfl

theorem groupsOf_regranted (t : TeamConfig) (id i : Id) (T : TeamTables) :
    (regranted P t id T).groupsOf i = if id = i then expectedGroups t else T.groupsOf i := by
  rw [TeamTables.groupsOf, regranted, select_append, select_map_of_key (k := id) fun _ => rfl]
  split
  · subst i
    rw [select_remove_self, List.nil_append, List.map_map]
    rfl
  · rename_i h
    rw [select_remove_ne (Ne.symm h), List.append_nil]
    rfl

theorem sameOutside_regranted (t : TeamConfig) (id : Id) (name : String) (T : TeamTables) :
    TeamTables.SameOutside id name T (regranted P t id T) :=
  { TeamTables.SameOutside.refl id name T with
    emails := fun i hi => by rw [emailsOf_regranted, if_neg (Ne.symm hi)]
    groups := fun i hi => by rw [groupsOf_regranted, if_neg (Ne.symm hi)] }

theorem consistent_regranted {t : TeamConfig} {id : Id} {T : TeamTables} (h : T.Consistent)
    (hid : T.HasTeam id) : (regranted P t id T).Consistent where
  teamIds := h.teamIds
  teamNames := h.teamNames
  memberKeys := h.memberKeys
  memberTeam := h.memberTeam
  ownedTeam := h.ownedTeam
  grantTeam g hg := by
    rcases List.mem_append.mp hg with hg | hg
    · exact h.grantTeam g (mem_remove.mp hg).1
    · obtain ⟨_, _, rfl⟩ := List.mem_map.mp hg
      exact hid
  groupTeam g hg := by
    rcases List.mem_append.mp hg with hg | hg
    · exact h.groupTeam g (mem_remove.mp hg).1
    · obtain ⟨_, _, rfl⟩ := List.mem_map.mp hg
      exact hid

theorem regrant_yields {id : Id} {t : TeamConfig}
    (hemails : (t.memberList.map fun g => P.toLowercase g.email).Nodup)
    (hgroups : (t.groupList.map GroupGrant.group).Nodup) {rest : SyncTx Unit}
    {Q : Unit → Session → Prop}
    (h : Yields R rest Q (s.withTeams (regranted P t id s.db.toTeamTables))) :
    Yields R (do
      updateTeams fun T => T.clearMemberGrants id
      updateTeams fun T => T.clearGroupGrants id
      Transaction.each (fun g => insertMemberGrant P ⟨id, P.toLowercase g.email, g.role⟩)
        t.memberList
      Transaction.each (fun g => insertGroupGrant P ⟨id, g.group, g.role⟩) t.groupList
      rest) Q s := by
  refine .seq (yields_updateTeams (.seq (yields_updateTeams ?_)))
  refine .bind (insertMemberGrants_yields hemails fun g hg => (mem_remove.mp hg).2) ?_
  rintro _ _ rfl
  refine .bind (insertGroupGrants_yields hgroups fun g hg => (mem_remove.mp hg).2) ?_
  rintro _ _ rfl
  exact h

def roleIn (P : Platform) (U : UserTables) (emails groups : List (String × TeamRole))
    (user : UserRow) : Option TeamRole :=
  reconcileMemberships
    (rolesFrom emails groups (P.toLowercase user.email) (U.groupsOfUser user.id))

/-- The row of a user in a team whose grants are these; users that do not exist keep theirs. -/
def reconciledMember (P : Platform) (U : UserTables) (emails groups : List (String × TeamRole))
    (now : Timestamp) (id : Id) (old : Id → Option TeamMember) (u : Id) : Option TeamMember :=
  match U.userById u with
  | some user => TeamTables.memberAfter id u (roleIn P U emails groups user) now (old u)
  | none => old u

theorem reconcile_yields {team : Id} {user : UserRow} {now : Timestamp} {Q : Bool → Session → Prop}
    (h : Q (roleIn P s.db.toUserTables (s.db.emailsOf team) (s.db.groupsOf team) user).isSome
      (s.withTeams (s.db.setMember team user.id
        (roleIn P s.db.toUserTables (s.db.emailsOf team) (s.db.groupsOf team) user) now))) :
    Yields R (reconcile P team user.id user.email now) Q s := by
  refine .seq (yields_select fun roles hroles => .seq (yields_updateTeams (.ret ?_)))
  have hrole : reconcileMemberships (roles.map fun r => TeamRole.fromDb r.asStr) =
      roleIn P s.db.toUserTables (s.db.emailsOf team) (s.db.groupsOf team) user := by
    simp only [TeamRole.fromDb_asStr, List.map_id']
    exact reconcileMemberships_congr fun r => hroles.mem_iff
  simpa only [hrole] using h

/-- Only members of the team `id` differ, and the constraints hold. -/
structure MembersOnly (id : Id) (s t : Session) : Prop where
  rows : ∃ ms, t = s.withTeamMembers ms
  sound : t.Sound
  others : ∀ i, i ≠ id → t.db.memberOf i = s.db.memberOf i

theorem MembersOnly.setMember {id : Id} {t : Session} (h : MembersOnly id s t)
    (hid : s.db.HasTeam id) (u : Id) (role : Option TeamRole) (now : Timestamp) :
    MembersOnly id s (t.withTeams (t.db.setMember id u role now)) := by
  obtain ⟨⟨ms, rfl⟩, hsound, hothers⟩ := h
  refine ⟨⟨_, rfl⟩, hsound.withTeams (hsound.db.teams.setMember hid u role now) fun _ => Iff.rfl,
    fun i hi => ?_⟩
  funext v
  exact (TeamTables.memberOf_setMember_ne (fun h => hi (congrArg Prod.fst h)) role now).trans
    (congrFun (hothers i hi) v)

theorem reconcileUsers_yields (hs : s.Sound) {id : Id} (hid : s.db.HasTeam id) {now : Timestamp}
    {users : List UserRow} (husers : users.Perm s.db.users) :
    Yields R (Transaction.each (fun u => do
      let _ ← reconcile P id u.id u.email now
      return ()) users) (fun _ t => MembersOnly id s t ∧ ∀ u, t.db.memberOf id u =
        reconciledMember P s.db.toUserTables (s.db.emailsOf id) (s.db.groupsOf id) now id
          (s.db.memberOf id) u) s := by
  refine (Transaction.Ensures.foldKey (fun t u => t.db.memberOf id u) (fun _ => ([] : List Unit))
    UserRow.id (fun user old new => new = TeamTables.memberAfter id user.id
      (roleIn P s.db.toUserTables (s.db.emailsOf id) (s.db.groupsOf id) user) now old)
    (fun _ _ => []) (I := MembersOnly id s) ((husers.map UserRow.id).nodup_iff.mpr hs.db.userIds)
    ⟨⟨s.db.teamMembers, rfl⟩, hs, fun _ _ => rfl⟩ ?_).mono ?_
  · intro _ user _ t ht _
    obtain ⟨ms, rfl⟩ := ht.rows
    refine .seq (reconcile_yields (.ret ⟨ht.setMember hid user.id _ now, ?_, ?_, rfl⟩))
    · exact TeamTables.memberOf_setMember_self ..
    · exact fun u hu => TeamTables.memberOf_setMember_ne
        (fun h => hu (congrArg Prod.snd h)) _ now
  · rintro _ t ⟨ht, heach⟩
    refine ⟨ht, fun u => ?_⟩
    unfold reconciledMember
    cases hu : s.db.userById u with
    | some user =>
      obtain ⟨hmem, rfl⟩ := lookup_eq_some_mem hu
      exact heach.post user (husers.mem_iff.mpr hmem)
    | none =>
      exact heach.others u fun user huser => lookup_eq_none.mp hu user (husers.mem_iff.mp huser)

/-- All that is stored about a declared team after it is synchronized. -/
def syncedView (P : Platform) (U : UserTables) (t : TeamConfig) (now : Timestamp) (id : Id)
    (old : Option TeamView) : TeamView where
  row := upsertedRow P t now id old
  emails := expectedEmails P t
  groups := expectedGroups t
  members := reconciledMember P U (expectedEmails P t) (expectedGroups t) now
    (upsertedRow P t now id old).id (membersOf old)
  owned := ownedOf old

/-- The team is there, with the file's grants; a new one has some id. -/
def TeamSynced (P : Platform) (U : UserTables) (t : TeamConfig) (now : Timestamp)
    (old new : Option TeamView) : Prop :=
  ∃ id, new = some (syncedView P U t now id old)

/-- `sync_team` changes the view of its team alone. -/
theorem syncTeam_yields (hs : s.Sound) {t : TeamConfig} (now : Timestamp)
    (hemails : (t.memberList.map fun g => P.toLowercase g.email).Nodup)
    (hgroups : (t.groupList.map GroupGrant.group).Nodup) :
    Yields R (syncTeam P t now) (fun _ s' => (s'.Sound ∧ s.OnlyTeams s') ∧
      Transaction.Changes (fun s n => s.db.toTeamTables.view n) (fun s => s.report.actions) t.name
        (TeamSynced P s.db.toUserTables t now) (teamEntries P t) s s') s := by
  refine .bind (upsertTeam_yields hs t now) fun id s₁ h₁ => ?_
  have hid : s₁.db.HasTeam id := h₁.rowId ▸ TeamTables.HasTeam.of_named h₁.row
  have hT := consistent_regranted (P := P) (t := t) h₁.sound.db.teams hid
  refine regrant_yields hemails hgroups (.seq (yields_select fun users husers => ?_))
  refine .bind (reconcileUsers_yields (h₁.sound.withTeams hT fun _ => Iff.rfl) hid husers) ?_
  rintro _ s₃ ⟨⟨⟨ms, rfl⟩, hsound, hothers⟩, hmembers⟩
  have honly : s.OnlyTeams
      ((s₁.withTeams (regranted P t id s₁.db.toTeamTables)).withTeamMembers ms) :=
    ⟨h₁.only.projects, h₁.only.users, h₁.only.settings⟩
  have hrow : TeamTables.teamNamed { regranted P t id s₁.db.toTeamTables with teamMembers := ms }
    t.name = some (upsertedRow P t now id (s.db.toTeamTables.view t.name)) := h₁.row
  refine .seq (yields_fetch (.ret ⟨⟨hsound, honly⟩, ⟨id, ?_⟩, fun n hn => ?_, h₁.actions⟩))
  · refine (view_of_named hrow).trans (congrArg some ?_)
    have hself := h₁.rowId
    unfold TeamTables.viewOf syncedView
    rw [hself]
    congr 1
    · exact (emailsOf_regranted ..).trans (if_pos rfl)
    · exact (groupsOf_regranted (P := P) ..).trans (if_pos rfl)
    · funext u
      have hu := hmembers u
      simp only [Session.withTeams, emailsOf_regranted, groupsOf_regranted, if_pos] at hu
      rw [h₁.only.users] at hu
      rw [← h₁.members]
      exact hu
    · exact h₁.owned
  · have hout : TeamTables.SameOutside id t.name s.db.toTeamTables
        { regranted P t id s₁.db.toTeamTables with teamMembers := ms } :=
      (h₁.outside.trans (sameOutside_regranted t id t.name _)).trans
        { TeamTables.SameOutside.refl id t.name _ with members := hothers }
    refine hout.view hn fun row hrow => ?_
    rw [← h₁.outside.named n hn] at hrow
    exact h₁.rowId ▸ h₁.sound.db.teams.id_ne hrow h₁.row hn

abbrev teamViews (s : Session) (name : String) : Option TeamView := s.db.toTeamTables.view name

abbrev actionsOf (s : Session) : List SyncAction := s.report.actions

theorem syncTeams_yields (hs : s.Sound) {ts : List TeamConfig} (now : Timestamp)
    (hnames : (ts.map TeamConfig.name).Nodup)
    (hemails : ∀ t ∈ ts, (t.memberList.map fun g => P.toLowercase g.email).Nodup)
    (hgroups : ∀ t ∈ ts, (t.groupList.map GroupGrant.group).Nodup) :
    Yields R (Transaction.each (fun t => syncTeam P t now) ts) (fun _ s' =>
      (s'.Sound ∧ s.OnlyTeams s') ∧ Transaction.ChangesEach teamViews actionsOf TeamConfig.name
        (fun t => TeamSynced P s.db.toUserTables t now) (teamEntries P) ts s s') s := by
  refine .foldKey teamViews actionsOf TeamConfig.name _ _ hnames ⟨hs, .refl s⟩ fun _ t ht s₁ h₁ _ => ?_
  refine (syncTeam_yields h₁.1 now (hemails t ht) (hgroups t ht)).mono fun _ s₂ h₂ => ?_
  rw [h₁.2.users] at h₂
  exact ⟨⟨h₂.1.1, h₁.2.trans h₂.1.2⟩, h₂.2⟩

end ConfigSync

end Soika
