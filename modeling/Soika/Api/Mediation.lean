import Soika.Adapters.AccountsSpec
import Soika.Adapters.IssuePages
import Soika.Adapters.IssueSpec
import Soika.Api.Evidence

/-! # Every access is mediated

A request makes no write before it has read that its caller may, and it shows nothing that its
caller may not see. One rule for each kind of call, then one for each guard, and from these the
handlers.
-/

namespace Soika.Site

open Table Interaction Auth

variable {H : SiteHost} {app : SiteState} {presented : String → Prop} {h : SiteHistory} {id : Id}
  {cookies : Option String}

/-- The handler makes permitted calls only, and ends with a warranted response. -/
abbrev Guarded (H : SiteHost) (app : SiteState) (presented : String → Prop) (p : Handler)
    (h : SiteHistory) : Prop :=
  p.Obeys H.site (.recording (Permits app.toAppState presented)) (Warrants app.toAppState presented) h

theorem guarded_refuse (status : ℕ) (message : String) :
    Guarded H app presented (refuse status message) h := by
  constructor <;> intro _ hmem <;> cases hmem

theorem guarded_fail (e : Error) : Guarded H app presented (.fail e) h := trivial

theorem guarded_noContent : Guarded H app presented (.ret .noContent) h := by
  constructor <;> intro _ hmem <;> cases hmem

theorem guarded_query {q : Query} {f : q.Reply → Handler}
    (hf : ∀ s r h', q.eval H.argon2 H.backend s = .ok r → h ⊆ h' → Told h' q r →
      Guarded H app presented (f r) h') : Guarded H app presented ((query q).bind f) h := by
  apply Prog.Obeys.record trivial
  · intro s r s' h' hstep hsub ha
    exact hf s r h' (congrArg Prod.fst hstep) hsub ha
  · exact fun _ _ _ => trivial

theorem guarded_read {q : SiteQuery} {f : q.Reply → Handler}
    (hf : ∀ d r h', H.eval d q = .ok r → h ⊆ h' → Seen h' q r →
      Guarded H app presented (f r) h') : Guarded H app presented ((read q).bind f) h := by
  apply Prog.Obeys.record trivial
  · intro s r s' h' hstep hsub ha
    exact hf s.db r h' (congrArg Prod.fst hstep) hsub ha
  · exact fun _ _ _ => trivial

theorem guarded_change {w : Auth.Write} {f : w.Reply → Handler}
    (hmay : PermitsChange app.toAppState presented (Told h) w)
    (hf : ∀ (s : Server) r d h', w.run H.backend s.clock s.db = .ok (r, d) → h ⊆ h' →
      Guarded H app presented (f r) h') : Guarded H app presented ((change w).bind f) h := by
  apply Prog.Obeys.record hmay
  · intro s r s' h' hstep hsub _
    obtain ⟨d, hrun, -⟩ := Host.runWrite_eq_ok.mp hstep
    exact hf s r d h' hrun hsub
  · exact fun _ _ _ => trivial

theorem guarded_write {w : SiteWrite} {f : w.Reply → Handler}
    (hmay : PermitsWrite app.toAppState presented h w)
    (hf : ∀ (s : Server) r h', (H.runOn s.clock s.db w).1 = .ok r → h ⊆ h' → Wrote h' w r →
      Guarded H app presented (f r) h') : Guarded H app presented ((write w).bind f) h := by
  apply Prog.Obeys.record hmay
  · intro s r s' h' hstep hsub ha
    exact hf s r h' (congrArg Prod.fst hstep) hsub ha
  · exact fun _ _ _ => trivial

theorem permitted_db {app : AppState} {call : siteCalls.Cmd} (hmay : Permits app presented h call)
    (fault : Option Error) (s : Server) :
    (H.site.answer call fault s).2.db = s.db ∨
      (∃ (w : Auth.Write) (r : w.Reply), PermitsChange app presented (Told h) w ∧
        w.run H.backend s.clock s.db = .ok (r, (H.site.answer call fault s).2.db)) ∨
      ∃ w, PermitsWrite app presented h w ∧
        (H.site.answer call fault s).2.db = (H.runOn s.clock s.db w).2 := by
  rcases H.site.answer_state call fault s with hstate | hstate
  · exact .inl (congrArg Server.db hstate)
  rw [hstate]
  cases call with
  | inl call =>
    cases call with
    | query q => exact .inl rfl
    | write w =>
      rcases Host.runWrite_state (H := H.toHost) w s with hsame | ⟨r, d, hrun, hsame⟩
      · exact .inl (congrArg Server.db hsame)
      · right
        left
        refine ⟨w, r, hmay, ?_⟩
        rw [hrun]
        exact congrArg (fun s => Except.ok (r, Server.db s)) hsame.symm
    | _ => exact hmay.elim
  | inr call =>
    cases call with
    | read q => exact .inl rfl
    | write w => exact .inr (.inr ⟨w, hmay, rfl⟩)

/-! The same inside a sequence, and for a write whose error is looked at. -/

section Sequences

variable {α : Type} {k : α → Handler}

theorem guarded_bind_bind {β : Type} {p : Prog siteCalls Error β} {g : β → Prog siteCalls Error α}
    (hp : Guarded H app presented (p.bind fun b => (g b).bind k) h) :
    Guarded H app presented ((p.bind g).bind k) h := by
  rwa [Prog.bind_assoc]

theorem guarded_read_bind {q : SiteQuery} {g : q.Reply → Prog siteCalls Error α}
    (hf : ∀ d r h', H.eval d q = .ok r → h ⊆ h' → Seen h' q r →
      Guarded H app presented ((g r).bind k) h') :
    Guarded H app presented (((read q).bind g).bind k) h := by
  rw [Prog.bind_assoc]
  exact guarded_read hf

theorem guarded_query_bind {q : Query} {g : q.Reply → Prog siteCalls Error α}
    (hf : ∀ s r h', q.eval H.argon2 H.backend s = .ok r → h ⊆ h' → Told h' q r →
      Guarded H app presented ((g r).bind k) h') :
    Guarded H app presented (((query q).bind g).bind k) h := by
  rw [Prog.bind_assoc]
  exact guarded_query hf

theorem guarded_write_bind {w : SiteWrite} {g : w.Reply → Prog siteCalls Error α}
    (hmay : PermitsWrite app.toAppState presented h w)
    (hf : ∀ (s : Server) r h', (H.runOn s.clock s.db w).1 = .ok r → h ⊆ h' → Wrote h' w r →
      Guarded H app presented ((g r).bind k) h') :
    Guarded H app presented (((write w).bind g).bind k) h := by
  rw [Prog.bind_assoc]
  exact guarded_write hmay hf

theorem guarded_attempt {w : SiteWrite} {g : Except Error w.Reply → Prog siteCalls Error α}
    (hmay : PermitsWrite app.toAppState presented h w)
    (hok : ∀ (s : Server) r h', (H.runOn s.clock s.db w).1 = .ok r → h ⊆ h' →
      Guarded H app presented ((g (.ok r)).bind k) h')
    (herr : ∀ e h', h ⊆ h' → Guarded H app presented ((g (.error e)).bind k) h') :
    Guarded H app presented (((attempt w).bind g).bind k) h := by
  rw [Prog.bind_assoc]
  apply Prog.Obeys.attempt hmay
  · intro s r s' hstep
    exact hok s r _ (congrArg Prod.fst hstep) (List.subset_append_left _ _)
  · intro _ s e s' _
    exact herr e _ (List.subset_append_left _ _)

end Sequences

theorem guarded_require {check : Except Error Unit} {k : Handler}
    (hk : Guarded H app presented k h) : Guarded H app presented (require check k) h := by
  unfold require
  split
  · trivial
  · exact hk

section Callers

variable {m : Machine authCalls Error Server}

abbrev CallHistory := List (Transition authCalls Error Server)

def AuthTold (h : CallHistory) : Knowledge := fun q r => Answered (S := authCalls) h (.query q) r

theorem AuthTold.mono {h h' : CallHistory} (hsub : h ⊆ h') (q : Query) (r : q.Reply)
    (ha : AuthTold h q r) : AuthTold h' q r :=
  Answered.mono ha hsub

def Administers (app : AppState) (presented : String → Prop) (h : CallHistory) : AuthCall → Prop
  | .query _ => True
  | .write w => PermitsChange app presented (AuthTold h) w
  | _ => False

/-- A program of the administration ends so, and makes permitted calls. -/
abbrev Administered (m : Machine authCalls Error Server) (app : AppState)
    (presented : String → Prop) {α : Type} (Q : CallHistory → α → Prop) (p : Prog authCalls Error α)
    (h : CallHistory) : Prop :=
  p.Obeys m (.recording (Administers app presented)) (fun h o => ∀ a, o = .ok a → Q h a) h

variable {app : AppState} {h : CallHistory} {α β : Type} {Q : CallHistory → α → Prop}

theorem administered_ask {q : Query} {f : q.Reply → Prog authCalls Error α}
    (hf : ∀ r h', h ⊆ h' → AuthTold h' q r → Administered m app presented Q (f r) h') :
    Administered m app presented Q ((Auth.get q).bind f) h := by
  apply Prog.Obeys.record trivial
  · exact fun _ r _ h' _ hsub ha => hf r h' hsub ha
  · exact fun _ _ _ _ he => nomatch he

theorem administered_put {w : Auth.Write} {f : w.Reply → Prog authCalls Error α}
    (hmay : PermitsChange app presented (AuthTold h) w)
    (hf : ∀ r h', h ⊆ h' → Administered m app presented Q (f r) h') :
    Administered m app presented Q ((put w).bind f) h := by
  apply Prog.Obeys.record hmay
  · exact fun _ r _ h' _ hsub _ => hf r h' hsub
  · exact fun _ _ _ _ he => nomatch he

theorem administered_fail (e : Error) : Administered m app presented Q (.fail e) h :=
  fun _ he => nomatch he

theorem administered_bind {Q' : CallHistory → β → Prop} {p : Prog authCalls Error β}
    {f : β → Prog authCalls Error α} (hp : Administered m app presented Q' p h)
    (hf : ∀ b h', Q' h' b → Administered m app presented Q (f b) h') :
    Administered m app presented Q (p.bind f) h := by
  refine .bind (hp.mono fun h' o ho => ?_)
  cases o with
  | ok b => exact hf b h' (ho b rfl)
  | err e => exact fun _ he => nomatch he
  | panic => exact fun _ he => nomatch he

theorem authenticateUser_administered
    (hpresented : ∀ id, sessionIdFrom app cookies = some id → presented id) :
    Administered m app presented (fun h user => Admitted app presented (AuthTold h) user)
      (authenticateUser app cookies) h := by
  unfold authenticateUser
  cases hid : sessionIdFrom app cookies with
  | none => exact administered_fail _
  | some id =>
    unfold sessionUser
    apply administered_ask
    intro found h₁ _ hsession
    cases found with
    | none => exact administered_fail _
    | some session =>
      apply administered_ask
      intro found h₂ hsub huser
      cases found with
      | none => exact administered_fail _
      | some stored =>
        dsimp only
        cases hadmitted : admission app stored with
        | error e => exact administered_fail _
        | ok user =>
          rintro _ ⟨⟩
          exact ⟨id, session, stored, hpresented id hid, AuthTold.mono hsub _ _ hsession, huser,
            hadmitted⟩

theorem adminUser_administered
    (hpresented : ∀ id, sessionIdFrom app cookies = some id → presented id) :
    Administered m app presented (fun h user => Admitted app presented (AuthTold h) user ∧
      user.instanceRole.canManageInstance = true) (Auth.adminUser app cookies) h := by
  apply administered_bind (authenticateUser_administered hpresented)
  intro user h' huser
  split
  · rename_i hmanage
    rintro _ ⟨⟩
    exact ⟨huser, hmanage⟩
  · exact administered_fail _

end Callers

theorem guarded_inl {α : Type} {Q : CallHistory → α → Prop} {p : Prog authCalls Error α}
    (hp : Administered H.machine app.toAppState presented Q p []) {k : α → Handler}
    (hk : ∀ a h' h₁, h ⊆ h' → Q h₁ a → (∀ q r, AuthTold h₁ q r → Told h' q r) →
      Guarded H app presented (k a) h') : Guarded H app presented (p.inl.bind k) h := by
  have htold : ∀ (h₁ : CallHistory) q r, AuthTold h₁ q r → Told (h ++ h₁.map .inl) q r :=
    fun _ _ _ ha => ha.inl h
  refine .bind ((hp.inl_recording h fun h₁ c hc => ?_).mono fun h' o ho => ?_)
  · cases c with
    | query q => trivial
    | write w => exact PermitsChange.mono (htold h₁) hc
    | _ => exact hc.elim
  · obtain ⟨h₁, rfl, hQ⟩ := ho
    cases o with
    | ok a => exact hk a _ h₁ (List.subset_append_left _ _) (hQ a rfl) (htold h₁)
    | err e => trivial
    | panic => trivial

section Guards

variable (hpresented : ∀ id, sessionIdFrom app.toAppState cookies = some id → presented id)
include hpresented

theorem guarded_currentUser {k : UserRow → Handler}
    (hk : ∀ user h', h ⊆ h' → Admitted app.toAppState presented (Told h') user →
      Guarded H app presented (k user) h') :
    Guarded H app presented (currentUser app cookies k) h := by
  apply guarded_inl (authenticateUser_administered hpresented)
  intro user h' h₁ hsub huser htold
  exact hk user h' hsub (huser.mono htold)

theorem guarded_adminUser {k : UserRow → Handler}
    (hk : ∀ user h', h ⊆ h' → Manages app.toAppState presented (Told h') →
      Guarded H app presented (k user) h') :
    Guarded H app presented (adminUser app cookies k) h := by
  apply guarded_inl (adminUser_administered hpresented)
  rintro user h' h₁ hsub ⟨huser, hmanage⟩ htold
  exact hk user h' hsub ⟨user, huser.mono htold, hmanage⟩

end Guards

theorem guarded_resolveProject {publicId : String} {k : ProjectRow → Handler}
    (hk : ∀ project h', h ⊆ h' → Guarded H app presented (k project) h') :
    Guarded H app presented (resolveProject publicId k) h := by
  apply guarded_read
  intro d found h₁ _ hsub₁ _
  cases found with
  | some project => exact hk project h₁ hsub₁
  | none =>
    apply guarded_read
    intro d found h₂ _ hsub₂ _
    cases found with
    | some project => exact hk project h₂ (List.Subset.trans hsub₁ hsub₂)
    | none => exact guarded_refuse _ _

section Role

variable {user : UserRow} (huser : Admitted app.toAppState presented (Told h) user)
include huser

theorem guarded_effectiveRole {k : Option Role → Handler}
    (hk : ∀ role h', h ⊆ h' → (∀ r ∈ role, Holds app.toAppState presented h' r id) →
      Guarded H app presented (k role) h') : Guarded H app presented (effectiveRole user id k) h := by
  unfold effectiveRole
  split
  · rename_i hmanage
    exact hk _ h (List.Subset.refl _) fun r _ => .inl ⟨user, huser, hmanage⟩
  · rename_i hmanage
    apply guarded_read
    intro d found h₁ _ hsub₁ hseen
    cases found with
    | none => exact hk none h₁ hsub₁ fun r hr => nomatch hr
    | some project =>
      apply guarded_query
      intro s teamRole h₂ _ hsub₂ htold
      apply hk _ h₂ (List.Subset.trans hsub₁ hsub₂)
      intro r hr
      unfold resolveRole at hr
      rw [if_neg hmanage] at hr
      obtain ⟨teamRole', rfl, hrole⟩ := Option.map_eq_some_iff.mp hr
      refine .inr ⟨user, project, teamRole', ?_, hseen.mono hsub₂, htold, ?_⟩
      · exact huser.mono (Told.mono (List.Subset.trans hsub₁ hsub₂))
      · rintro rfl
        cases teamRole' with
        | admin => rfl
        | contributor => cases hrole

theorem guarded_requireMember {k : Role → Handler}
    (hk : ∀ role h', h ⊆ h' → Holds app.toAppState presented h' role id →
      Guarded H app presented (k role) h') : Guarded H app presented (requireMember user id k) h := by
  apply guarded_effectiveRole huser
  intro role h' hsub hrole
  cases role with
  | some role => exact hk role h' hsub (hrole role rfl)
  | none => exact guarded_refuse _ _

theorem guarded_requireAdmin {k : Handler}
    (hk : ∀ h', h ⊆ h' → Holds app.toAppState presented h' .admin id →
      Guarded H app presented k h') : Guarded H app presented (requireAdmin user id k) h := by
  apply guarded_requireMember huser
  intro role h' hsub hrole
  cases role with
  | admin => exact hk h' hsub hrole
  | member => exact guarded_refuse _ _

theorem guarded_requireManager {k : Handler}
    (hk : Manages app.toAppState presented (Told h) → Guarded H app presented k h) :
    Guarded H app presented (requireManager user k) h := by
  unfold requireManager
  split
  · rename_i hmanage
    exact hk ⟨user, huser, hmanage⟩
  · exact guarded_refuse _ _

theorem guarded_authorizeIssue {rawId : String} {k : Issue → ProjectRow → Handler}
    (hk : ∀ issue project h', h ⊆ h' → ReachesIssue app.toAppState presented h' issue.id →
      Guarded H app presented (k issue project) h') :
    Guarded H app presented (authorizeIssue user rawId k) h := by
  apply guarded_read
  intro d found h₁ _ hsub₁ hissue
  cases found with
  | none => exact guarded_refuse _ _
  | some issue =>
    apply guarded_read
    intro d found h₂ hproject hsub₂ _
    cases found with
    | none => exact guarded_refuse _ _
    | some project =>
      have hsub := List.Subset.trans hsub₁ hsub₂
      apply guarded_requireMember (huser.mono (Told.mono hsub))
      intro role h₃ hsub₃ hholds
      have hid : project.id = issue.projectId :=
        (ProjectTables.projectById_mem (Except.ok.inj hproject)).2
      apply hk issue project h₃ (List.Subset.trans hsub hsub₃)
      exact ⟨rawId, issue, hissue.mono (List.Subset.trans hsub₂ hsub₃), rfl, hid ▸ hholds.member⟩

end Role

theorem guarded_resolveTeam {raw : PathId} {k : TeamRow → Handler}
    (hk : ∀ team h', h ⊆ h' → Guarded H app presented (k team) h') :
    Guarded H app presented (resolveTeam raw k) h := by
  cases raw with
  | uuid id =>
    apply guarded_read
    intro d found h' _ hsub _
    cases found with
    | some team => exact hk team h' hsub
    | none => trivial
  | text raw =>
    apply guarded_read
    intro d found h' _ hsub _
    cases found with
    | some team => exact hk team h' hsub
    | none => trivial

theorem guarded_requireTeamManager {denied : Handler}
    (hdenied : ∀ h, Guarded H app presented denied h) {user : UserRow}
    (huser : Admitted app.toAppState presented (Told h) user) {k : Handler}
    (hk : ∀ h', h ⊆ h' → TeamAdmin app.toAppState presented (Told h') id →
      Guarded H app presented k h') :
    Guarded H app presented (requireTeamManager denied user id k) h := by
  unfold requireTeamManager
  split
  · rename_i hmanage
    exact hk h (List.Subset.refl _) (.inl ⟨user, huser, hmanage⟩)
  · apply guarded_query
    intro s role h' _ hsub htold
    split
    · rename_i hadmin
      subst hadmin
      exact hk h' hsub (.inr ⟨user, huser.mono (Told.mono hsub), htold⟩)
    · exact hdenied h'

theorem guarded_inspectTeam {teamId : Id} {k : TeamGrantView → Handler}
    (hk : ∀ view h', h ⊆ h' → Guarded H app presented (k view) h') :
    Guarded H app presented ((inspectTeam teamId).bind k) h := by
  apply guarded_read_bind
  intro d grants h₁ _ hsub₁ _
  apply guarded_read_bind
  intro d groups h₂ _ hsub₂ _
  apply guarded_read_bind
  intro d sources h₃ _ hsub₃ _
  exact hk _ h₃ (List.Subset.trans hsub₁ (List.Subset.trans hsub₂ hsub₃))

theorem guarded_teamGrants {teamId : Id} {k : Option TeamGrantView → Handler}
    (hk : ∀ grants h', h ⊆ h' → Guarded H app presented (k grants) h') :
    Guarded H app presented ((teamGrants app teamId).bind k) h := by
  unfold teamGrants
  split
  · apply guarded_bind_bind
    apply guarded_inspectTeam
    exact fun view h' hsub => hk (some view) h' hsub
  · exact hk none h (List.Subset.refl _)

theorem guarded_loadTeamView {team : TeamRow}
    (hteam : Belongs app.toAppState presented h team.id) (status : ℕ) :
    Guarded H app presented (loadTeamView app status team) h := by
  apply guarded_read
  intro d members h₁ _ hsub₁ _
  apply guarded_read
  intro d projects h₂ _ hsub₂ hrows
  apply guarded_teamGrants
  intro grants h₃ hsub₃
  have hbelongs := hteam.mono (List.Subset.trans hsub₁ (List.Subset.trans hsub₂ hsub₃))
  constructor
  · intro id hid
    obtain ⟨row, hrow, rfl⟩ := List.mem_map.mp hid
    exact .team hbelongs (hrows.mono hsub₃) hrow rfl
  · exact fun _ hmem => absurd hmem List.not_mem_nil
  · exact fun _ hmem => absurd hmem List.not_mem_nil
  · intro id hid
    obtain rfl := List.mem_singleton.mp hid
    exact hbelongs
  · exact fun _ hmem => absurd hmem List.not_mem_nil

theorem guarded_summaries {user : UserRow} {teams : List TeamRow}
    {k : List TeamSummary → Handler}
    (hk : ∀ views h', h ⊆ h' → views.map TeamSummary.row = teams →
      Guarded H app presented (k views) h') :
    Guarded H app presented ((summaries user teams).bind k) h := by
  induction teams generalizing h k with
  | nil => exact hk [] h (List.Subset.refl _) rfl
  | cons team teams ih =>
    apply guarded_read_bind
    intro d members h₁ _ hsub₁ _
    apply guarded_read_bind
    intro d projects h₂ _ hsub₂ _
    apply guarded_query_bind
    intro s role h₃ _ hsub₃ _
    apply guarded_bind_bind
    apply ih
    intro views h₄ hsub₄ hviews
    apply hk
    · exact List.Subset.trans hsub₁
        (List.Subset.trans hsub₂ (List.Subset.trans hsub₃ hsub₄))
    · exact congrArg (team :: ·) hviews

end Soika.Site
