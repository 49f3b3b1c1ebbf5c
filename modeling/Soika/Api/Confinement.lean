import Soika.Adapters.TeamPart
import Soika.Api.Mediated

/-! # What callers cannot reach

Whoever is not an admin of a team changes nothing of what its admins decide, and whoever does not
belong to it changes nothing of what its members work on and sees nothing of it, in any run of the
server and in whatever order the calls of the requests come.
-/

namespace Soika.Site

open Table Interaction Auth

section Callers

variable (app : AppState) (presented : String → Prop) (people : Id → Prop)

/-- The sessions that are presented stand for these people, none of whom manages the instance. -/
structure Ordinary (d : Accounts) : Prop where
  sessions : ∀ session ∈ d.sessions, presented session.id → people session.userId
  users : ∀ user ∈ d.users, people user.id →
    (app.adminUsers.apply user).instanceRole.canManageInstance = false

structure Walled (teamId : Id) (c : Charter) (s : Server) : Prop where
  keyed : Keyed s.db
  ordinary : Ordinary app presented people s.db
  charter : s.db.charter teamId = c

end Callers

section Readings

variable {H : SiteHost} {I : Server → Prop} {h : SiteHistory} (hw : Witnessed H.site I h)
include hw

theorem Told.at {q : Query} {r : q.Reply} (ha : Told h q r) :
    ∃ s, I s ∧ q.eval H.argon2 H.backend s = .ok r := by
  obtain ⟨s, s', hI, hstep⟩ := hw.answered ha
  exact ⟨s, hI, congrArg Prod.fst hstep⟩

theorem Seen.at {q : SiteQuery} {r : q.Reply} (ha : Seen h q r) :
    ∃ s, I s ∧ H.eval s.db q = .ok r := by
  obtain ⟨s, s', hI, hstep⟩ := hw.answered ha
  exact ⟨s, hI, congrArg Prod.fst hstep⟩

theorem Wrote.at {w : SiteWrite} {r : w.Reply} (ha : Wrote h w r) :
    ∃ s, I s ∧ (H.runOn s.clock s.db w).1 = .ok r := by
  obtain ⟨s, s', hI, hstep⟩ := hw.answered ha
  exact ⟨s, hI, congrArg Prod.fst hstep⟩

variable {app : AppState} {presented : String → Prop} {people : Id → Prop} {teamId id : Id}
  {c : Charter} (hI : ∀ s, I s → Walled app presented people teamId c s)
include hI

theorem Admitted.ordinary {user : UserRow} (ha : Admitted app presented (Told h) user) :
    people user.id ∧ user.instanceRole.canManageInstance = false := by
  obtain ⟨sessionId, session, stored, hpresented, hsession, hstored, hadmitted⟩ := ha
  obtain ⟨s₁, hs₁, hfound⟩ := Told.at hw hsession
  obtain ⟨hlookup, -⟩ := Option.filter_eq_some_iff.mp (Except.ok.inj hfound)
  obtain ⟨hmem, hid⟩ := lookup_eq_some_mem hlookup
  obtain ⟨s₂, hs₂, huser⟩ := Told.at hw hstored
  obtain ⟨hstoredMem, hstoredId⟩ := Accounts.userById_mem (Except.ok.inj huser)
  obtain ⟨-, -, rfl⟩ := admission_eq_ok.mp hadmitted
  have hperson : people stored.id := by
    rw [hstoredId]
    exact (hI s₁ hs₁).ordinary.sessions session hmem (hid.symm ▸ hpresented)
  exact ⟨hperson, (hI s₂ hs₂).ordinary.users stored hstoredMem hperson⟩

theorem not_manages : ¬ Manages app presented (Told h) := by
  rintro ⟨user, huser, hmanage⟩
  rw [(huser.ordinary hw hI).2] at hmanage
  cases hmanage

theorem member_of_told {user : UserRow} {role : TeamRole}
    (huser : Admitted app presented (Told h) user)
    (hrole : Told h (.memberRole teamId user.id) (some role)) :
    ∃ m ∈ c.tables.teamMembers, people m.userId ∧ m.role = role := by
  obtain ⟨s, hs, hreply⟩ := Told.at hw hrole
  obtain ⟨m, hm, rfl⟩ := Option.map_eq_some_iff.mp (Except.ok.inj hreply)
  obtain ⟨hmem, hkey⟩ := lookup_eq_some_mem hm
  refine ⟨m, ?_, ?_, rfl⟩
  · rw [← (hI s hs).charter]
    exact mem_select.mpr ⟨hmem, congrArg Prod.fst hkey⟩
  · have hid : m.userId = user.id := congrArg Prod.snd hkey
    rw [hid]
    exact (huser.ordinary hw hI).1

theorem TeamAdmin.ne (hroles : ∀ m ∈ c.tables.teamMembers, people m.userId → m.role ≠ .admin)
    (ha : TeamAdmin app presented (Told h) id) : id ≠ teamId := by
  rintro rfl
  rcases ha with hmanages | ⟨user, huser, hrole⟩
  · exact not_manages hw hI hmanages
  · obtain ⟨m, hm, hperson, hadmin⟩ := member_of_told hw hI huser hrole
    exact hroles m hm hperson hadmin

theorem Holds.outside {role : Role}
    (hroles : ∀ m ∈ c.tables.teamMembers, people m.userId → role = .admin ∧ m.role ≠ .admin)
    (ha : Holds app presented h role id) : id ∉ c.projectIds := by
  rcases ha with hmanages | ⟨user, row, teamRole, huser, hrow, hteam, hrole⟩
  · exact absurd hmanages (not_manages hw hI)
  · obtain ⟨s, hs, hreply⟩ := Seen.at hw hrow
    obtain ⟨hmem, rfl⟩ := ProjectTables.projectById_mem (Except.ok.inj hreply)
    rw [← (hI s hs).charter]
    apply (hI s hs).keyed.not_mem_projectIds hmem
    rintro rfl
    obtain ⟨m, hm, hperson, hadmin⟩ := member_of_told hw hI huser hteam
    obtain ⟨hrequired, hnot⟩ := hroles m hm hperson
    exact hnot (hadmin.trans (hrole hrequired))

end Readings

structure SparesCharter (teamId : Id) (d d' : Accounts) : Prop where
  charter : d'.charter teamId = d.charter teamId
  users : d'.users = d.users
  sessions : d'.sessions = d.sessions
  keyed : Keyed d'

section Spares

variable {B : AccountBackend} {d d' : Accounts} {teamId id : Id} {now : Timestamp} (hd : Keyed d)
include hd

theorem sparesCharter_refl : SparesCharter teamId d d := ⟨rfl, rfl, rfl, hd⟩

theorem sparesCharter_members {rows : List TeamMember}
    (hrows : select TeamMember.teamId teamId rows = select TeamMember.teamId teamId d.teamMembers) :
    SparesCharter teamId d { d with teamMembers := rows } where
  charter := by
    unfold Accounts.charter TeamTables.only
    dsimp only
    rw [hrows]
  users := rfl
  sessions := rfl
  keyed := { hd with }

theorem sparesCharter_invites {rows : List Invite}
    (hrows : select Invite.teamId teamId rows = select Invite.teamId teamId d.invites)
    (htokens : UniqueOn Invite.token rows) :
    SparesCharter teamId d { d with invites := rows } where
  charter := by
    unfold Accounts.charter TeamTables.only
    dsimp only
    rw [hrows]
  users := rfl
  sessions := rfl
  keyed := { hd with tokens := htokens }

omit hd in
theorem sparesCharter_projects {T : ProjectTables} {nextId : Id}
    (hrows : select ProjectRow.teamId teamId T.projects = select ProjectRow.teamId teamId d.projects)
    (hids : UniqueOn ProjectRow.projectId T.projects) (hfresh : ∀ p ∈ T.projects, p.id < nextId)
    (hissues : UniqueOn Issue.id T.issues) (htokens : UniqueOn Invite.token d.invites) :
    SparesCharter teamId d { d with toProjectTables := T, nextId := nextId } where
  charter := by
    unfold Accounts.charter
    dsimp only
    rw [hrows]
  users := rfl
  sessions := rfl
  keyed := ⟨hids, hfresh, hissues, htokens⟩

theorem sparesCharter_settle {α : Type} {x : Except Error (α × Accounts)}
    (hx : ∀ a d', x = .ok (a, d') → SparesCharter teamId d d') :
    SparesCharter teamId d (d.settle x).2 := by
  rcases Accounts.settle_state (d := d) x with hstate | ⟨a, hok⟩
  · rw [hstate]
    exact sparesCharter_refl hd
  · exact hx a _ hok

theorem sparesCharter_setMember (hid : id ≠ teamId) (userId : Id) (role : TeamRole) :
    SparesCharter teamId d (d.withTeams (d.setMember id userId (some role) now)) := by
  have hother : ∀ m : TeamMember, m.key = (id, userId) → m.teamId ≠ teamId := fun m hkey hteam =>
    hid ((congrArg Prod.fst hkey).symm.trans hteam)
  apply sparesCharter_members hd
  unfold TeamTables.memberOf
  dsimp only
  cases lookup TeamMember.key (id, userId) d.teamMembers with
  | none => exact filter_append_single (decide_eq_false hid)
  | some m =>
    apply filter_modify
    intro m _ hkey
    exact ⟨decide_eq_false (hother m hkey), decide_eq_false (hother m hkey)⟩

theorem sparesCharter_modifyProject {f : ProjectRow → ProjectRow} (hid : ∀ p, (f p).id = p.id)
    (hteam : ∀ p, (f p).teamId = p.teamId) (hout : id ∉ (d.charter teamId).projectIds) :
    SparesCharter teamId d (d.withProjects (d.modifyProject id f)) := by
  refine sparesCharter_projects (d := d) ?_ (hd.projectIds.modify hid) ?_ hd.issueIds hd.tokens
  · apply filter_modify
    rintro p hp rfl
    have hother : p.teamId ≠ teamId := fun heq =>
      hout (Accounts.mem_charter_projectIds.mpr ⟨p, hp, heq, rfl⟩)
    exact ⟨decide_eq_false hother, decide_eq_false (by rwa [hteam])⟩
  · intro p hp
    obtain ⟨q, hq, rfl⟩ := mem_modify.mp hp
    split
    · rw [hid]
      exact hd.projectFresh q hq
    · exact hd.projectFresh q hq

theorem sparesCharter_withStore {s' : Store} (hids : UniqueOn Issue.id s'.issues)
    (hnext : s'.nextId = d.nextId) : SparesCharter teamId d (d.withStore s') := by
  refine sparesCharter_projects (d := d) rfl hd.projectIds ?_ hids hd.tokens
  intro p hp
  rw [hnext]
  exact hd.projectFresh p hp

theorem sparesCharter_updateReturning {B : Backend} {f : Issue → Issue} (hf : Issue.Keeps f)
    (issueId : Id) :
    SparesCharter teamId d (d.withStore (updateReturning B issueId f d.store).2) := by
  rcases updateReturning_state f d.store with hstate | hstate
  · rw [hstate]
    exact sparesCharter_withStore hd hd.issueIds rfl
  · rw [hstate]
    exact sparesCharter_withStore hd (hd.issueIds.modify hf.id) rfl

theorem sparesCharter_commit {B : Backend} {α : Type} {issueId : Id}
    {r : Except Error (α × Store)}
    (hr : ∀ a s', r = .ok (a, s') → OverrideStep B issueId d.store s') :
    SparesCharter teamId d (d.withStore (commit r d.store).2) := by
  rcases commit_state (r := r) (s := d.store) with hstate | ⟨a, hok⟩
  · rw [hstate]
    exact sparesCharter_withStore hd hd.issueIds rfl
  · obtain ⟨hids, hnext⟩ := (hr a _ hok).keys hd.issueIds
    exact sparesCharter_withStore hd hids hnext

end Spares

section Writes

variable {H : SiteHost} {I : Server → Prop} {h : SiteHistory} (hw : Witnessed H.site I h)
  {app : AppState} {presented : String → Prop} {people : Id → Prop} {teamId : Id} {c : Charter}
  (hI : ∀ s, I s → Walled app presented people teamId c s)
  (hroles : ∀ m ∈ c.tables.teamMembers, people m.userId → m.role ≠ .admin) {s : Server} (hs : I s)
include hw hI hroles hs

theorem change_sparesCharter {w : Auth.Write} (hmay : PermitsChange app presented (Told h) w)
    {now : Timestamp} {r : w.Reply} {d' : Accounts}
    (hrun : w.run H.backend now s.db = .ok (r, d')) : SparesCharter teamId s.db d' := by
  have hwalled := hI s hs
  have hnone : ¬ Manages app presented (Told h) := not_manages hw hI
  have hne : ∀ id, TeamAdmin app presented (Told h) id → id ≠ teamId :=
    fun id ha => ha.ne hw hI hroles
  cases w with
  | addMember id userId role =>
    obtain ⟨-, -, rfl⟩ := Accounts.addMember_eq_ok.mp hrun
    exact sparesCharter_setMember hwalled.keyed (hne id hmay) userId role
  | setMemberRole id userId role =>
    obtain ⟨-, m, -, rfl⟩ := Accounts.setMemberRole_eq_ok.mp hrun
    apply sparesCharter_members hwalled.keyed
    apply filter_modify
    intro m _ hkey
    have hother : m.teamId ≠ teamId := (congrArg Prod.fst hkey).trans_ne (hne id hmay)
    exact ⟨decide_eq_false hother, decide_eq_false hother⟩
  | removeMember id userId =>
    obtain ⟨-, rfl⟩ := Accounts.removeMember_eq_ok.mp hrun
    apply sparesCharter_members hwalled.keyed
    apply filter_remove
    intro m _ hkey
    exact decide_eq_false ((congrArg Prod.fst hkey).trans_ne (hne id hmay))
  | createInvite new =>
    obtain ⟨-, htoken, -, rfl⟩ := Accounts.createInvite_eq_ok.mp hrun
    apply sparesCharter_invites hwalled.keyed
    · exact filter_append_single (decide_eq_false (hne new.teamId hmay))
    · exact hwalled.keyed.tokens.append_single (lookup_eq_none.mp htoken)
  | deleteInvite token =>
    obtain ⟨-, rfl⟩ := Accounts.deleteInvite_eq_ok.mp hrun
    obtain ⟨invite, htold, hteam⟩ := hmay
    obtain ⟨s₁, hs₁, hreply⟩ := Told.at hw htold
    obtain ⟨hmem, htoken⟩ := Accounts.inviteByToken_mem (Except.ok.inj hreply)
    apply sparesCharter_invites hwalled.keyed
    · apply filter_remove
      intro i hi hitoken
      apply decide_eq_false
      intro hiteam
      -- the invite of the team was there when the token was read
      have hbefore : i ∈ c.tables.invites := by
        rw [← hwalled.charter]
        exact mem_select.mpr ⟨hi, hiteam⟩
      rw [← (hI s₁ hs₁).charter] at hbefore
      have hrow := (mem_select.mp hbefore).1
      obtain rfl := (hI s₁ hs₁).keyed.tokens.eq_of_key hrow hmem (hitoken.trans htoken.symm)
      exact hne _ hteam hiteam
    · exact hwalled.keyed.tokens.remove
  | deleteTeam => exact absurd hmay hnone
  | updateUser | deleteUser => exact absurd hmay.1 hnone
  | setInstanceRole => exact absurd hmay.1.1 hnone
  | _ => exact hmay.elim

theorem write_sparesCharter {w : SiteWrite} (hmay : PermitsWrite app presented h w)
    (now : Timestamp) : SparesCharter teamId s.db (H.runOn now s.db w).2 := by
  have hwalled := hI s hs
  have hkeyed := hwalled.keyed
  have hnone : ¬ Manages app presented (Told h) := not_manages hw hI
  have hout : ∀ id, Holds app presented h .admin id → id ∉ (s.db.charter teamId).projectIds := by
    intro id ha
    rw [hwalled.charter]
    exact ha.outside hw hI fun m hm hperson => ⟨rfl, hroles m hm hperson⟩
  cases w with
  | insertProject new shortId =>
    apply sparesCharter_settle hkeyed
    intro row d' hok
    obtain ⟨-, -, rfl, rfl⟩ := Accounts.insertProject_eq_ok.mp hok
    refine sparesCharter_projects (d := s.db) ?_ ?_ ?_ hkeyed.issueIds hkeyed.tokens
    · exact filter_append_single (decide_eq_false (TeamAdmin.ne hw hI hroles hmay))
    · exact hkeyed.projectIds.append_single fun p hp => (hkeyed.projectFresh p hp).ne
    · exact forall_mem_snoc (fun p hp => Nat.lt_succ_of_lt (hkeyed.projectFresh p hp))
        (Nat.lt_succ_self _)
  | updateProject id u =>
    apply sparesCharter_settle hkeyed
    intro row d' hok
    obtain ⟨p, -, -, -, rfl⟩ := Accounts.updateProject_eq_ok.mp hok
    have hstay : u.teamId = none := by
      by_contra hmove
      exact hnone (hmay.2 hmove)
    refine sparesCharter_modifyProject hkeyed (fun _ => rfl) ?_ (hout id hmay.1)
    intro p
    rw [ProjectRowUpdate.applyRow_teamId, hstay]
    rfl
  | regenerateDsn id key =>
    apply sparesCharter_settle hkeyed
    intro row d' hok
    obtain ⟨p, -, -, -, rfl⟩ := Accounts.regenerateDsn_eq_ok.mp hok
    exact sparesCharter_modifyProject hkeyed (fun _ => rfl) (fun _ => rfl) (hout id hmay)
  | deleteProject id =>
    refine sparesCharter_projects (d := s.db) (T := s.db.removeProject id) ?_
      hkeyed.projectIds.remove ?_ hkeyed.issueIds.remove hkeyed.tokens
    · apply filter_remove
      rintro p hp rfl
      apply decide_eq_false
      exact fun hteam => hout _ hmay (Accounts.mem_charter_projectIds.mpr ⟨p, hp, hteam, rfl⟩)
    · exact fun p hp => hkeyed.projectFresh p (mem_remove.mp hp).1
  | addFavorite userId projectId =>
    apply sparesCharter_settle hkeyed
    intro _ d' hok
    obtain ⟨-, rfl⟩ := Accounts.addFavorite_eq_ok.mp hok
    exact sparesCharter_projects (d := s.db) rfl hkeyed.projectIds hkeyed.projectFresh
      hkeyed.issueIds hkeyed.tokens
  | removeFavorite userId projectId =>
    exact sparesCharter_projects (d := s.db) rfl hkeyed.projectIds hkeyed.projectFresh
      hkeyed.issueIds hkeyed.tokens
  | createTeam | renameTeam => exact absurd hmay hnone
  | setStatus issueId status =>
    exact sparesCharter_updateReturning hkeyed (Issue.keeps_withStatus _ _) issueId
  | mute issueId spec mutedAt =>
    exact sparesCharter_updateReturning hkeyed (Issue.keeps_withMute _ _) issueId
  | overrideFingerprint issueId fingerprint =>
    exact sparesCharter_commit hkeyed fun _ _ hok => (overrideFingerprintOnce_ok hok).2
  | lockAndMerge issueId fingerprint =>
    exact sparesCharter_commit hkeyed fun _ _ hok => (lockAndMerge_ok hok).2
  | renameLocked issueId fingerprint =>
    exact sparesCharter_commit hkeyed fun _ _ hok => (renameLocked_ok hok).2

theorem answer_sparesCharter {call : siteCalls.Cmd} (hmay : Permits app presented h call)
    (fault : Option Error) : SparesCharter teamId s.db (H.site.answer call fault s).2.db := by
  rcases permitted_db (H := H) hmay fault s with hsame | ⟨w, r, hmay, hrun⟩ | ⟨w, hmay, hsame⟩
  · rw [hsame]
    exact sparesCharter_refl (hI s hs).keyed
  · exact change_sparesCharter hw hI hroles hs hmay hrun
  · rw [hsame]
    exact write_sparesCharter hw hI hroles hs hmay s.clock

end Writes

theorem Walled.of_spares {app : AppState} {presented : String → Prop} {people : Id → Prop}
    {teamId : Id} {c : Charter} {s s' : Server} (hwalled : Walled app presented people teamId c s)
    (hspares : SparesCharter teamId s.db s'.db) : Walled app presented people teamId c s' where
  keyed := hspares.keyed
  ordinary := ⟨hspares.sessions ▸ hwalled.ordinary.sessions, hspares.users ▸ hwalled.ordinary.users⟩
  charter := hspares.charter.trans hwalled.charter

/-- A request presents this session. -/
def Presented (app : SiteState) (requests : List Incoming) (sessionId : String) : Prop :=
  ∃ r ∈ requests, r.Presents app sessionId

/-- What permitted calls keep and the others' calls too, every run of the server keeps; and each
response is warranted by what its request has read while it held. -/
theorem serve_keeps {H : SiteHost} {app : SiteState} {requests : List Incoming} {s : Server}
    {turns : List (Turn siteCalls Error)} {I : Server → Prop}
    (hown : ∀ s h c fault, I s → Witnessed H.site I h →
      Permits app.toAppState (Presented app requests) h c → I (H.site.answer c fault s).2)
    (hothers : ∀ c, Turn.other c ∈ turns → ∀ s, I s → I (H.site.step c s).2) (hs : I s) :
    I ((serve app requests s).run H.site turns).state ∧
      ∀ th ∈ ((serve app requests s).run H.site turns).threads, Witnessed H.site I th.history ∧
        ∀ response, th.rest = .ret response →
          Warranted app.toAppState (Presented app requests) th.history response := by
  have hprogs : ∀ q ∈ requests.map (Incoming.handler app),
      Guarded H app (Presented app requests) q [] := by
    intro q hq
    obtain ⟨r, hr, rfl⟩ := List.mem_map.mp hq
    exact r.request.guarded fun id hid => ⟨r, hr, hid⟩
  obtain ⟨hstate, hthreads⟩ := Pool.run_guarded (I := I) hown
    (fun s c (hc : Turn.other c ∈ turns) hI => hothers c hc s hI) hprogs hs fun c hc => hc
  refine ⟨hstate, fun th hth => ?_⟩
  obtain ⟨hwitnessed, hrest⟩ := hthreads th hth
  refine ⟨hwitnessed, fun response hret => ?_⟩
  rw [hret] at hrest
  exact hrest

/-- The charter of the team is the one that the server has started with. -/
abbrev CharterStands (app : SiteState) (requests : List Incoming) (people : Id → Prop) (teamId : Id)
    (s : Server) : Server → Prop :=
  Walled app.toAppState (Presented app requests) people teamId (s.db.charter teamId)

/-- Callers that are neither admins of a team nor managers of the instance change nothing of what
the admins of the team decide. -/
theorem charter_confined (H : SiteHost) (app : SiteState) (requests : List Incoming)
    (people : Id → Prop) (teamId : Id) (s : Server) (turns : List (Turn siteCalls Error))
    (hkeyed : Keyed s.db)
    (hordinary : Ordinary app.toAppState (Presented app requests) people s.db)
    (hroles : ∀ m ∈ s.db.teamMembers, m.teamId = teamId → people m.userId → m.role ≠ .admin)
    (hothers : ∀ c, Turn.other c ∈ turns → ∀ s', CharterStands app requests people teamId s s' →
      CharterStands app requests people teamId s (H.site.step c s').2) :
    ((serve app requests s).run H.site turns).state.db.charter teamId = s.db.charter teamId := by
  have hmembers : ∀ m ∈ (s.db.charter teamId).tables.teamMembers, people m.userId →
      m.role ≠ .admin := by
    intro m hm
    obtain ⟨hmem, hteam⟩ := mem_select.mp hm
    exact hroles m hmem hteam
  have hown : ∀ s' h c fault, CharterStands app requests people teamId s s' →
      Witnessed H.site (CharterStands app requests people teamId s) h →
      Permits app.toAppState (Presented app requests) h c →
      CharterStands app requests people teamId s (H.site.answer c fault s').2 := by
    intro s' h c fault hs' hw hmay
    exact hs'.of_spares (answer_sparesCharter hw (fun _ hs => hs) hmembers hs' hmay fault)
  exact (serve_keeps hown hothers ⟨hkeyed, hordinary, rfl⟩).1.charter

/-! A server with two teams, for examples. -/

theorem plain_backend : Engine.sqlite.backend = Host.plain.backend.toBackend := rfl

theorem kept_order (rows : List Issue) : (id rows).Perm rows := .refl rows

def plainHost : SiteHost :=
  { Host.plain with
    engine := .sqlite
    engine_backend := plain_backend
    arrange := id
    arrange_perm := kept_order
    teamShortId := fun id => s!"{id}"
    sqlLower := String.toLower }

def SiteState.plain : SiteState :=
  { AppState.plain .sqlite with
    baseUrl := "https://soika.example.com"
    config := ⟨1000, 0, fun _ => false⟩ }

/-- Ann has team 1 with project 0, and Bob team 2 with project 3. Bob is signed in. -/
def twoTeams (guests : List TeamMember) : Server :=
  { Server.new with
    db := { Accounts.new with
      users := [⟨0, "ann@example.com", "Ann", "", .member, .localAccount, .active⟩,
        ⟨1, "bob@example.com", "Bob", "", .member, .localAccount, .active⟩]
      teams := [⟨1, "Web", .epoch, .epoch, none⟩, ⟨2, "Mail", .epoch, .epoch, none⟩]
      teamMembers := [⟨1, 0, .admin, .epoch⟩, ⟨2, 1, .admin, .epoch⟩] ++ guests
      projects := [(⟨1, "Shop", "shop", "k0", 1000, 0, none⟩ : NewProject).row 0 "p0" .epoch,
        (⟨2, "Inbox", "inbox", "k3", 1000, 0, none⟩ : NewProject).row 3 "p3" .epoch]
      issues := [.once 4 "i4" "timeout"]
      sessions := [⟨"b", 1, .epoch, .atSecond 3600⟩]
      nextId := 5 } }

def bobsRequests : List Incoming :=
  [⟨some "soika_session=b.secretb", .deleteProject "shop"⟩,
    ⟨some "soika_session=b.secretb", .setStatus "i4" .resolved⟩,
    ⟨some "soika_session=b.secretb", .muteProject "inbox" none⟩]

/-- The calls of the three requests in turn, while time passes. -/
def bobsTurns : List (Turn siteCalls Error) :=
  .other (.inl (.advance 1 (.atSecond 1))) ::
    (List.range 24).map fun n => .thread (n % 3) none

theorem twoTeams_keyed (guests : List TeamMember) : Keyed (twoTeams guests).db := by
  have hnone : Keyed (twoTeams []).db := by constructor <;> decide
  exact ⟨hnone.projectIds, hnone.projectFresh, hnone.issueIds, hnone.tokens⟩

theorem twoTeams_ordinary (guests : List TeamMember) :
    Ordinary SiteState.plain.toAppState (Presented .plain bobsRequests) (· = 1)
      (twoTeams guests).db := by
  have husers : ∀ user ∈ (twoTeams []).db.users, user.id = 1 →
      (SiteState.plain.adminUsers.apply user).instanceRole.canManageInstance = false := by
    decide
  constructor
  · intro session hmem _
    obtain rfl := List.mem_singleton.mp hmem
    rfl
  · exact husers

/-- Bob as a contributor of Ann's team resolves the issue, and the project stays. -/
theorem charter_confined_twoTeams :
    let s := twoTeams [⟨1, 1, .contributor, .epoch⟩]
    ((serve .plain bobsRequests s).run plainHost.site bobsTurns).state.db.charter 1 =
      s.db.charter 1 := by
  apply charter_confined plainHost .plain bobsRequests (· = 1)
  · exact twoTeams_keyed _
  · exact twoTeams_ordinary _
  · decide
  · intro c hc s' hs'
    obtain rfl : c = .inl (.advance 1 (.atSecond 1)) := by
      simpa [bobsTurns] using hc
    exact ⟨hs'.keyed, hs'.ordinary, hs'.charter⟩

structure Sealed (app : AppState) (presented : String → Prop) (people : Id → Prop) (teamId : Id)
    (c : Charter) (k : Contents) (s : Server) : Prop extends
    Walled app presented people teamId c s where
  contents : s.db.contents teamId = k

structure Response.Omits (r : Response) (teamId : Id) (c : Charter) (k : Contents) : Prop where
  projects : ∀ id ∈ r.projectIds, id ∉ c.projectIds
  issues : ∀ i ∈ r.issuesShown, ¬ (i.projectId ∈ c.projectIds ∧ i.id ∈ k.issueIds)
  events : ∀ e ∈ r.eventsShown, ¬ (e.projectId ∈ c.projectIds ∧ e.issueId ∈ k.issueIds)
  team : teamId ∉ r.teamIds

section Outside

variable {H : SiteHost} {I : Server → Prop} {h : SiteHistory} (hw : Witnessed H.site I h)
  {app : AppState} {presented : String → Prop} {people : Id → Prop} {teamId id : Id} {c : Charter}
  {k : Contents} (hI : ∀ s, I s → Sealed app presented people teamId c k s)
  (houtside : ∀ m ∈ c.tables.teamMembers, ¬ people m.userId)
include hw hI houtside

theorem Holds.outsider {role : Role} (ha : Holds app presented h role id) : id ∉ c.projectIds :=
  ha.outside hw (fun s hs => (hI s hs).toWalled) fun m hm hperson =>
    absurd hperson (houtside m hm)

theorem TeamAdmin.outsider (ha : TeamAdmin app presented (Told h) id) : id ≠ teamId :=
  ha.ne hw (fun s hs => (hI s hs).toWalled) fun m hm hperson => absurd hperson (houtside m hm)

theorem Belongs.outsider (ha : Belongs app presented h id) : id ≠ teamId := by
  -- whoever has a membership in the team would be one of its members
  have hother : ∀ {s : Server} {user : UserRow} {m : TeamMember}, I s →
      Admitted app presented (Told h) user → m ∈ s.db.teamMembers → m.userId = user.id →
      m.teamId ≠ teamId := by
    intro s user m hs huser hmem hid hteam
    apply houtside m
    · rw [← (hI s hs).charter]
      exact mem_select.mpr ⟨hmem, hteam⟩
    · rw [hid]
      exact (huser.ordinary hw fun s hs => (hI s hs).toWalled).1
  cases ha with
  | admin hadmin => exact hadmin.outsider hw hI houtside
  | @member user huser hmember =>
    obtain ⟨s, hs, hreply⟩ := Seen.at hw hmember
    obtain ⟨m, hm⟩ := Option.isSome_iff_exists.mp (Except.ok.inj hreply)
    obtain ⟨hmem, hkey⟩ := lookup_eq_some_mem hm
    have hteam : m.teamId = id := congrArg Prod.fst hkey
    rw [← hteam]
    exact hother hs huser hmem (congrArg Prod.snd hkey)
  | @listed user rows row huser hrows hrow hid =>
    obtain ⟨s, hs, hreply⟩ := Seen.at hw hrows
    obtain rfl := Except.ok.inj hreply
    obtain ⟨-, m, hmem, hteam, hmember⟩ :=
      Accounts.mem_teamsOfUser.mp (SiteHost.mem_teamsByName.mp hrow)
    rw [← hid, ← hteam]
    exact hother hs huser hmem hmember

theorem ReachesIssue.outsider (ha : ReachesIssue app presented h id) : id ∉ k.issueIds := by
  obtain ⟨shortId, issue, hissue, rfl, hholds⟩ := ha
  obtain ⟨s, hs, hreply⟩ := Seen.at hw hissue
  have hrow : issue ∈ s.db.issues := by
    change (lookup Issue.shortId shortId s.db.issues).mapM H.backend.rowToIssue = _ at hreply
    cases hlookup : lookup Issue.shortId shortId s.db.issues with
    | none =>
      rw [hlookup] at hreply
      cases hreply
    | some row =>
      rw [hlookup, Option.mapM_some] at hreply
      obtain ⟨i, hi, hsame⟩ := bind_eq_ok.mp hreply
      obtain ⟨rfl, -⟩ := Backend.rowToIssue_eq_ok.mp hi
      cases hsame
      exact (lookup_eq_some_mem hlookup).1
  have hproject : issue.projectId ∉ c.projectIds := hholds.outsider hw hI houtside
  rw [← (hI s hs).contents]
  unfold Accounts.contents
  rw [ProjectTables.issueId_mem_iff (hI s hs).keyed.issueIds hrow, (hI s hs).charter]
  exact hproject

omit houtside in
theorem change_projects {w : Auth.Write} (hmay : PermitsChange app presented (Told h) w)
    {B : AccountBackend} {now : Timestamp} {d d' : Accounts} {r : w.Reply}
    (hrun : w.run B now d = .ok (r, d')) : d'.toProjectTables = d.toProjectTables := by
  have hnone : ¬ Manages app presented (Told h) := not_manages hw fun s hs => (hI s hs).toWalled
  cases w with
  | addMember id userId role =>
    obtain ⟨-, -, rfl⟩ := Accounts.addMember_eq_ok.mp hrun
    rfl
  | setMemberRole id userId role =>
    obtain ⟨-, m, -, rfl⟩ := Accounts.setMemberRole_eq_ok.mp hrun
    rfl
  | removeMember id userId =>
    obtain ⟨-, rfl⟩ := Accounts.removeMember_eq_ok.mp hrun
    rfl
  | createInvite new =>
    obtain ⟨-, -, -, rfl⟩ := Accounts.createInvite_eq_ok.mp hrun
    rfl
  | deleteInvite token =>
    obtain ⟨-, rfl⟩ := Accounts.deleteInvite_eq_ok.mp hrun
    rfl
  | deleteTeam => exact absurd hmay hnone
  | updateUser | deleteUser => exact absurd hmay.1 hnone
  | setInstanceRole => exact absurd hmay.1.1 hnone
  | _ => exact hmay.elim

theorem write_sparesContents {s : Server} (hs : I s) {w : SiteWrite}
    (hmay : PermitsWrite app presented h w) (now : Timestamp) :
    (H.runOn now s.db w).2.toProjectTables.within c.projectIds =
      s.db.toProjectTables.within c.projectIds := by
  have hkeyed := (hI s hs).keyed
  have hnone : ¬ Manages app presented (Told h) := not_manages hw fun s hs => (hI s hs).toWalled
  have hissue : ∀ id, ReachesIssue app presented h id →
      id ∉ (s.db.toProjectTables.within c.projectIds).issueIds := by
    intro id ha
    have hcontents := (hI s hs).contents
    unfold Accounts.contents at hcontents
    rw [(hI s hs).charter] at hcontents
    rw [hcontents]
    exact ha.outsider hw hI houtside
  cases w with
  | insertProject new shortId =>
    apply within_settle
    intro row d' hok
    obtain ⟨-, -, -, rfl⟩ := Accounts.insertProject_eq_ok.mp hok
    rfl
  | updateProject id u =>
    apply within_settle
    intro row d' hok
    obtain ⟨p, -, -, -, rfl⟩ := Accounts.updateProject_eq_ok.mp hok
    rfl
  | regenerateDsn id key =>
    apply within_settle
    intro row d' hok
    obtain ⟨p, -, -, -, rfl⟩ := Accounts.regenerateDsn_eq_ok.mp hok
    rfl
  | deleteProject id =>
    exact ProjectTables.within_removeProject hkeyed.issueIds (Holds.outsider hw hI houtside hmay)
  | addFavorite userId projectId =>
    have hproject : projectId ∉ c.projectIds := hmay.2.outsider hw hI houtside
    apply within_settle
    intro _ d' hok
    obtain ⟨-, rfl⟩ := Accounts.addFavorite_eq_ok.mp hok
    refine ProjectTables.within_congr rfl rfl ?_
    dsimp only
    split
    · rfl
    · exact filter_append_single (decide_eq_false hproject)
  | removeFavorite userId projectId =>
    have hproject : projectId ∉ c.projectIds := hmay.2.outsider hw hI houtside
    refine ProjectTables.within_congr rfl rfl ?_
    apply (List.filter_filter ..).trans
    apply List.filter_congr
    intro o _
    by_cases ho : o = .favorite userId projectId
    · subst ho
      simp [ProjectOwned.projectId, hproject]
    · simp [ho]
  | createTeam | renameTeam => exact absurd hmay hnone
  | setStatus issueId status =>
    exact within_updateReturning (Issue.keeps_withStatus _ _) hkeyed.issueIds (hissue _ hmay)
  | mute issueId spec mutedAt =>
    exact within_updateReturning (Issue.keeps_withMute _ _) hkeyed.issueIds (hissue _ hmay)
  | overrideFingerprint issueId fingerprint =>
    exact within_commit (fun _ _ hok => (overrideFingerprintOnce_ok hok).2) hkeyed.issueIds
      (hissue _ hmay)
  | lockAndMerge issueId fingerprint =>
    exact within_commit (fun _ _ hok => (lockAndMerge_ok hok).2) hkeyed.issueIds (hissue _ hmay)
  | renameLocked issueId fingerprint =>
    exact within_commit (fun _ _ hok => (renameLocked_ok hok).2) hkeyed.issueIds (hissue _ hmay)

theorem Shown.outsider (ha : Shown app presented h id) : id ∉ c.projectIds := by
  cases ha with
  | role hrole => exact hrole.outsider hw hI houtside
  | @listed user rows row huser hrows hrow hid =>
    obtain ⟨s, hs, hreply⟩ := Seen.at hw hrows
    obtain rfl := Except.ok.inj hreply
    obtain ⟨hmem, m, hm, hteam, hmember⟩ :=
      Accounts.mem_projectsOfUser.mp (SiteHost.mem_byName.mp hrow)
    rw [← hid, ← (hI s hs).charter]
    apply (hI s hs).keyed.not_mem_projectIds hmem
    rintro rfl
    apply houtside m
    · rw [← (hI s hs).charter]
      exact mem_select.mpr ⟨hm, hteam⟩
    · rw [hmember]
      exact (huser.ordinary hw fun s hs => (hI s hs).toWalled).1
  | @team other rows row hteam hrows hrow hid =>
    obtain ⟨s, hs, hreply⟩ := Seen.at hw hrows
    obtain rfl := Except.ok.inj hreply
    obtain ⟨hmem, hrowTeam⟩ := mem_select.mp (SiteHost.mem_byName.mp hrow)
    rw [← hid, ← (hI s hs).charter]
    apply (hI s hs).keyed.not_mem_projectIds hmem
    rw [hrowTeam]
    exact hteam.outsider hw hI houtside
  | @created new shortId row hteam hrow hid =>
    obtain ⟨s, hs, hreply⟩ := Wrote.at hw hrow
    obtain ⟨-, -, rfl, -⟩ := Accounts.insertProject_eq_ok.mp
      (Accounts.settle_eq_ok.mp (Prod.ext hreply rfl))
    rw [← hid, ← (hI s hs).charter]
    exact (hI s hs).keyed.nextId_not_mem

theorem Warranted.omits {r : Response} (hr : Warranted app presented h r) :
    r.Omits teamId c k where
  projects id hid := (hr.projects id hid).outsider hw hI houtside
  issues i hi := by
    rintro ⟨hproject, hissue⟩
    rcases hr.issues i hi with ha | ha
    · exact ha.outsider hw hI houtside hproject
    · exact ha.outsider hw hI houtside hissue
  events e he := by
    rintro ⟨hproject, hissue⟩
    rcases hr.events e he with ha | ha
    · exact ha.outsider hw hI houtside hproject
    · exact ha.outsider hw hI houtside hissue
  team hteam := (hr.teams teamId hteam).outsider hw hI houtside rfl

theorem answer_sealed {s : Server} (hs : I s) {call : siteCalls.Cmd}
    (hmay : Permits app presented h call) (fault : Option Error) :
    Sealed app presented people teamId c k (H.site.answer call fault s).2 := by
  have hwalled : ∀ s, I s → Walled app presented people teamId c s :=
    fun s hs => (hI s hs).toWalled
  have hspares := answer_sparesCharter hw hwalled
    (fun m hm hperson => absurd hperson (houtside m hm)) hs hmay fault
  have hwithin : (H.site.answer call fault s).2.db.toProjectTables.within c.projectIds =
      s.db.toProjectTables.within c.projectIds := by
    rcases permitted_db (H := H) hmay fault s with hsame | ⟨w, r, hmay, hrun⟩ | ⟨w, hmay, hsame⟩
    · rw [hsame]
    · rw [change_projects hw hI hmay hrun]
    · rw [hsame]
      exact write_sparesContents hw hI houtside hs hmay s.clock
  refine ⟨(hwalled s hs).of_spares hspares, ?_⟩
  unfold Accounts.contents
  rw [hspares.charter, (hI s hs).charter, hwithin, ← (hI s hs).contents, ← (hI s hs).charter]
  rfl

end Outside

/-- The team is as it was when the server started. -/
abbrev TeamStands (app : SiteState) (requests : List Incoming) (people : Id → Prop) (teamId : Id)
    (s : Server) : Server → Prop :=
  Sealed app.toAppState (Presented app requests) people teamId (s.db.charter teamId)
    (s.db.contents teamId)

/-- Callers that neither belong to a team nor manage the instance change nothing of the team and of
what its members work on, and no response shows them anything of it. -/
theorem outsiders_confined (H : SiteHost) (app : SiteState) (requests : List Incoming)
    (people : Id → Prop) (teamId : Id) (s : Server) (turns : List (Turn siteCalls Error))
    (hkeyed : Keyed s.db)
    (hordinary : Ordinary app.toAppState (Presented app requests) people s.db)
    (houtside : ∀ m ∈ s.db.teamMembers, m.teamId = teamId → ¬ people m.userId)
    (hothers : ∀ c, Turn.other c ∈ turns → ∀ s', TeamStands app requests people teamId s s' →
      TeamStands app requests people teamId s (H.site.step c s').2) :
    let final := (serve app requests s).run H.site turns
    final.state.db.charter teamId = s.db.charter teamId ∧
      final.state.db.contents teamId = s.db.contents teamId ∧
      ∀ th ∈ final.threads, ∀ response, th.rest = .ret response →
        response.Omits teamId (s.db.charter teamId) (s.db.contents teamId) := by
  have hmembers : ∀ m ∈ (s.db.charter teamId).tables.teamMembers, ¬ people m.userId := by
    intro m hm
    obtain ⟨hmem, hteam⟩ := mem_select.mp hm
    exact houtside m hmem hteam
  have hown : ∀ s' h c fault, TeamStands app requests people teamId s s' →
      Witnessed H.site (TeamStands app requests people teamId s) h →
      Permits app.toAppState (Presented app requests) h c →
      TeamStands app requests people teamId s (H.site.answer c fault s').2 :=
    fun s' h c fault hs' hw hmay => answer_sealed hw (fun _ hs => hs) hmembers hs' hmay fault
  obtain ⟨hstate, hthreads⟩ := serve_keeps hown hothers ⟨⟨hkeyed, hordinary, rfl⟩, rfl⟩
  refine ⟨hstate.charter, hstate.contents, ?_⟩
  intro th hth response hret
  obtain ⟨hw, hwarranted⟩ := hthreads th hth
  exact (hwarranted response hret).omits hw (fun _ hs => hs) hmembers

/-- Without that role Bob does not even resolve the issue. -/
theorem outsiders_confined_twoTeams :
    let final := (serve .plain bobsRequests (twoTeams [])).run plainHost.site bobsTurns
    final.state.db.charter 1 = (twoTeams []).db.charter 1 ∧
      final.state.db.contents 1 = (twoTeams []).db.contents 1 ∧
      ∀ th ∈ final.threads, ∀ response, th.rest = .ret response →
        response.Omits 1 ((twoTeams []).db.charter 1) ((twoTeams []).db.contents 1) := by
  apply outsiders_confined plainHost .plain bobsRequests (· = 1)
  · exact twoTeams_keyed _
  · exact twoTeams_ordinary _
  · decide
  · intro c hc s' hs'
    obtain rfl : c = .inl (.advance 1 (.atSecond 1)) := by
      simpa [bobsTurns] using hc
    exact ⟨⟨hs'.keyed, hs'.ordinary, hs'.charter⟩, hs'.contents⟩

end Soika.Site
