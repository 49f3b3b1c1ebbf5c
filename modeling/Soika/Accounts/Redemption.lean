import Soika.Accounts.Invites
import Soika.Accounts.LastAdmin

/-! # Redeeming invites

Acceptances of invites, run together with revocations and the other operations on members.
In PostgreSQL an acceptance is open from the lock on the invite's row to its commit: the row
stays as it was read, and what was read of the account stays true. So every acceptance that
succeeds uses an invite up, and an invite can be used once.
-/

namespace Soika

open Table Interaction

namespace Accounts

def Redeems (B : AccountBackend) (d d' : Accounts) (token : String) (userId : Id) (now : Timestamp) :
    Prop :=
  ∃ i, d.inviteByToken token = some i ∧ i.acceptedAt = none ∧ B.le i.expiresAt now = false ∧
    (∃ u, d.userById userId = some u ∧ u.status = .active ∧
      ∀ target ∈ i.email, eqIgnoreAsciiCase target u.email = true) ∧
    ∃ m, d'.memberOf i.teamId userId = some m ∧ m.role.AtLeast i.role ∧
      ∀ m₀, d.memberOf i.teamId userId = some m₀ → m.role.AtLeast m₀.role

variable {B : AccountBackend} {d d' : Accounts} {now : Timestamp} {token : String} {userId : Id}

theorem redeems_of_join {i : Invite} {u : UserRow} {r : Unit} (hi : d.inviteByToken token = some i)
    (hunused : i.acceptedAt = none) (hexpires : B.le i.expiresAt now = false)
    (hu : d.userById userId = some u) (hcheck : checkInvitee i.email (some u) = .ok ())
    (hjoin : (d.markAccepted B token now).join B i.teamId userId i.role now = .ok (r, d')) :
    Redeems B d d' token userId now := by
  obtain ⟨_, ⟨⟩, hactive, hemail⟩ := checkInvitee_eq_ok.mp hcheck
  obtain ⟨m, hm, hrole⟩ := join_member hjoin
  have hleast := joinedRole_atLeast (d.memberOf i.teamId userId) i.role
  exact ⟨i, hi, hunused, hexpires, ⟨u, hu, hactive, hemail⟩, m, hm, hrole ▸ hleast.1,
    fun m₀ hm₀ => hrole ▸ hleast.2 m₀ hm₀⟩

theorem redeems_of_accept {r : Unit} (h : d.accept B token userId now = .ok (r, d')) :
    Redeems B d d' token userId now := by
  obtain ⟨i, hclaim, hcheck, hjoin⟩ := accept_eq_ok.mp h
  obtain ⟨hi, hunused, hexpires⟩ := claimable_eq_some.mp hclaim
  obtain ⟨u, hu, -⟩ := checkInvitee_eq_ok.mp hcheck
  exact redeems_of_join hi hunused hexpires hu (hu ▸ hcheck) hjoin

end Accounts

namespace Auth

open Accounts

/-- The operations on invites and members. -/
inductive InviteOp where
  | member (op : MembershipOp)
  | request (cookies : Option String) (token ip : String) (req : AcceptInviteRequest) (drawn : Drawn)
  | create (new : NewInvite)
  | revoke (token : String)

def InviteOp.prog (app : AppState) : InviteOp → Prog authCalls Error Unit
  | member op => op.prog app.dialect.repositories
  | request cookies token ip req drawn => do
    let _ ← acceptInvite app cookies token ip req drawn
    return ()
  | create new => do
    let _ ← put (.createInvite new)
    return ()
  | revoke token => put (.deleteInvite token)

def Redemption (e : Transition authCalls Error Server) : Option (String × Id × Timestamp) :=
  match e with
  | ⟨_, .write (.accept token userId now), .ok _, _⟩ => some (token, userId, now)
  | ⟨_, .write (.acceptCommit token _ userId _ now), .ok _, _⟩ => some (token, userId, now)
  | _ => none

def Issued (e : Transition authCalls Error Server) : Option String :=
  match e with
  | ⟨_, .write (.createInvite new), .ok _, _⟩ => some new.token
  | _ => none

def redeems (token : String) (e : Transition authCalls Error Server) : Bool :=
  (Redemption e).any fun r => r.1 = token

def issues (token : String) (e : Transition authCalls Error Server) : Bool :=
  Issued e = some token

structure RedeemState where
  /-- The invite whose row it has locked, and its time. -/
  claim : Option (Invite × Timestamp)
  /-- The account that was read last. -/
  invitee : Option UserRow
  accepted : ℕ
  created : ℕ
  sound : Prop

def RedeemState.start : RedeemState := ⟨none, none, 0, 0, True⟩

def RedeemState.claims (token : String) (t : RedeemState) : ℕ :=
  if t.claim.any fun c => c.1.token = token then 1 else 0

def claimAfter (claim : Option (Invite × Timestamp)) (e : Transition authCalls Error Server) :
    Option (Invite × Timestamp) :=
  match e with
  | ⟨_, .write (.acceptClaim _ now), .ok i, _⟩ => some (i, now)
  | ⟨_, .write (.acceptCommit _ _ _ _ _), .ok _, _⟩ => none
  | ⟨_, .write (.acceptRollback _), _, _⟩ => none
  | _ => claim

def inviteeAfter (invitee : Option UserRow) (e : Transition authCalls Error Server) :
    Option UserRow :=
  match e with
  | ⟨_, .query (.findUserById _), .ok (some u), _⟩ => some u
  | _ => invitee

def MayRedeem (dialect : Dialect) (t : RedeemState) : Write → Prop
  | .accept _ _ _ => dialect = .sqlite
  | .acceptClaim _ _ => dialect = .postgres ∧ t.claim = none
  | .acceptCommit token teamId userId role now =>
    ∃ i u, t.claim = some (i, now) ∧ i.token = token ∧ teamId = i.teamId ∧ role = i.role ∧
      t.invitee = some u ∧ u.id = userId ∧ checkInvitee i.email (some u) = .ok ()
  | .acceptRollback token => ∃ i now, t.claim = some (i, now) ∧ i.token = token
  | w => w.deactivates = false

def redeemProtocol (B : AccountBackend) (dialect : Dialect) (token : String) :
    Protocol authCalls Error Server RedeemState where
  may t := Writes (MayRedeem dialect t)
  next t e :=
    ⟨claimAfter t.claim e, inviteeAfter t.invitee e,
      t.accepted + if redeems token e then 1 else 0, t.created + if issues token e then 1 else 0,
      t.sound ∧ ∀ r ∈ Redemption e, Redeems B e.before.db e.after.db r.1 r.2.1 r.2.2⟩

/-- A claimed invite is locked, and still as it was read; acceptances use invites up. -/
structure Redeemable (dialect : Dialect) (B : AccountBackend) (token : String) (start : ℕ) (s : Server)
    (ts : List RedeemState) : Prop where
  consistent : s.db.Consistent
  claimed : ∀ t ∈ ts, ∀ i now, t.claim = some (i, now) → s.db.inviteByToken i.token = some i ∧
    i.acceptedAt = none ∧ B.le i.expiresAt now = false ∧ i.token ∈ s.db.lockedInvites
  oneClaim : ∀ tok, (ts.map (RedeemState.claims tok)).sum ≤ 1
  noClaim : dialect = .sqlite → ∀ t ∈ ts, t.claim = none
  invitees : ∀ t ∈ ts, ∀ u, t.invitee = some u → s.db.Remembers u
  balance : (ts.map RedeemState.accepted).sum + s.db.uses token ≤
    start + (ts.map RedeemState.created).sum
  sound : ∀ t ∈ ts, t.sound

variable {dialect : Dialect} {B : AccountBackend} {token : String} {start : ℕ} {s s' : Server}
  {ts : List RedeemState} {t t' : RedeemState} {i : ℕ}

theorem RedeemState.claims_of_claim {inv : Invite} {now : Timestamp} (h : t.claim = some (inv, now)) :
    t.claims inv.token = 1 := by
  simp [claims, h]

theorem RedeemState.claims_of_none (h : t.claim = none) (tok : String) : t.claims tok = 0 := by
  simp [claims, h]

namespace Redeemable

theorem mem_set {p : RedeemState → Prop} (hp : ∀ t ∈ ts, p t) (ht' : p t') :
    ∀ t ∈ ts.set i t', p t := by
  intro t ht
  rcases List.mem_or_eq_of_mem_set ht with ht | rfl
  · exact hp t ht
  · exact ht'

theorem state (h : Redeemable dialect B token start s ts) (hcons : s'.db.Consistent)
    (hkeeps : KeepsInvites s.db s'.db) (hrem : ∀ u, s.db.Remembers u → s'.db.Remembers u) :
    Redeemable dialect B token start s' ts where
  consistent := hcons
  claimed t ht i now hclaim := by
    obtain ⟨hi, hunused, hexpires, hlocked⟩ := h.claimed t ht i now hclaim
    exact ⟨(hkeeps.locked _ hlocked).trans hi, hunused, hexpires, hkeeps.locks ▸ hlocked⟩
  oneClaim := h.oneClaim
  noClaim := h.noClaim
  invitees t ht u hu := hrem u (h.invitees t ht u hu)
  balance := by
    have huses := uses_mono (hkeeps.unused token)
    have hbalance := h.balance
    omega
  sound := h.sound

/-- An operation goes on, or gives its claim up without accepting. -/
theorem set (h : Redeemable dialect B token start s ts) (hi : ts[i]? = some t)
    (hclaim : t'.claim = t.claim ∨ t'.claim = none)
    (hinvitee : ∀ u, t'.invitee = some u → s.db.Remembers u) (haccepted : t'.accepted = t.accepted)
    (hcreated : t'.created = t.created) (hsound : t'.sound) :
    Redeemable dialect B token start s (ts.set i t') := by
  have hmem := List.mem_of_getElem? hi
  exact {
    consistent := h.consistent
    claimed := mem_set h.claimed fun inv now hnew => by
      rcases hclaim with hsame | hnone
      · exact h.claimed t hmem inv now (hsame ▸ hnew)
      · rw [hnone] at hnew
        cases hnew
    oneClaim := fun tok => by
      have hsum := sum_map_set hi t' (RedeemState.claims tok)
      have hle : t'.claims tok ≤ t.claims tok := by
        rcases hclaim with hsame | hnone
        · rw [RedeemState.claims, hsame, RedeemState.claims]
        · rw [RedeemState.claims_of_none hnone]
          exact Nat.zero_le _
      have hone := h.oneClaim tok
      omega
    noClaim := fun hsqlite => mem_set (h.noClaim hsqlite) <| by
      rcases hclaim with hsame | hnone
      · exact hsame.trans (h.noClaim hsqlite t hmem)
      · exact hnone
    invitees := mem_set h.invitees hinvitee
    balance := by
      have haccept := sum_map_set hi t' RedeemState.accepted
      have hcreate := sum_map_set hi t' RedeemState.created
      have hbalance := h.balance
      omega
    sound := mem_set h.sound hsound }

theorem issue (h : Redeemable dialect B token start s ts) (hi : ts[i]? = some t) {inv : Invite}
    (hnew : s.db.inviteByToken inv.token = none)
    (hdb : s'.db = { s.db with invites := s.db.invites ++ [inv] }) (hcons : s'.db.Consistent)
    (hclaim : t'.claim = t.claim) (hinvitee : t'.invitee = t.invitee)
    (haccepted : t'.accepted = t.accepted)
    (hcreated : t'.created = t.created + if inv.token = token then 1 else 0) (hsound : t'.sound) :
    Redeemable dialect B token start s' (ts.set i t') := by
  have hmem := List.mem_of_getElem? hi
  have hlookup : ∀ tok, tok ≠ inv.token → s'.db.inviteByToken tok = s.db.inviteByToken tok := by
    intro tok hne
    rw [hdb]
    refine (lookup_append_single (a := inv)).trans ?_
    rw [if_neg hne.symm, Option.or_none]
    rfl
  have hrem : ∀ u, s.db.Remembers u → s'.db.Remembers u := fun u hu => by rw [hdb]; exact hu
  exact {
    consistent := hcons
    claimed := by
      have hold : ∀ t ∈ ts, ∀ i now, t.claim = some (i, now) →
          s'.db.inviteByToken i.token = some i ∧ i.acceptedAt = none ∧
            B.le i.expiresAt now = false ∧ i.token ∈ s'.db.lockedInvites := by
        intro t ht j now hj
        obtain ⟨hfound, hrest⟩ := h.claimed t ht j now hj
        refine ⟨?_, by rw [hdb]; exact hrest⟩
        rw [hlookup _ fun heq => ?_, hfound]
        rw [heq, hnew] at hfound
        cases hfound
      exact mem_set hold fun j now hj => hold t hmem j now (hclaim ▸ hj)
    oneClaim := fun tok => by
      have hsum := sum_map_set hi t' (RedeemState.claims tok)
      have hsame : t'.claims tok = t.claims tok := by
        rw [RedeemState.claims, hclaim, RedeemState.claims]
      have hone := h.oneClaim tok
      omega
    noClaim := fun hsqlite => mem_set (h.noClaim hsqlite) (hclaim.trans (h.noClaim hsqlite t hmem))
    invitees := mem_set (fun t ht u hu => hrem u (h.invitees t ht u hu))
      fun u hu => hrem u (h.invitees t hmem u (hinvitee ▸ hu))
    balance := by
      have haccept := sum_map_set hi t' RedeemState.accepted
      have hcreate := sum_map_set hi t' RedeemState.created
      have hbalance := h.balance
      by_cases htoken : inv.token = token
      · rw [if_pos htoken] at hcreated
        have hle : s'.db.uses token ≤ 1 := uses_le_one
        omega
      · rw [if_neg htoken] at hcreated
        have hsame := uses_congr (hlookup token (Ne.symm htoken))
        omega
    sound := mem_set h.sound hsound }

theorem claim (h : Redeemable dialect B token start s ts) (hi : ts[i]? = some t)
    (hdialect : dialect = .postgres) (hnone : t.claim = none) {inv : Invite} {now : Timestamp}
    {tok : String} (hinv : s.db.claimable B tok now = some inv) (hfree : tok ∉ s.db.lockedInvites)
    (hdb : s'.db = { s.db with lockedInvites := tok :: s.db.lockedInvites })
    (hclaim : t'.claim = some (inv, now)) (hinvitee : t'.invitee = t.invitee)
    (haccepted : t'.accepted = t.accepted) (hcreated : t'.created = t.created) (hsound : t'.sound) :
    Redeemable dialect B token start s' (ts.set i t') := by
  have hmem := List.mem_of_getElem? hi
  obtain ⟨hfound, hunused, hexpires⟩ := claimable_eq_some.mp hinv
  obtain rfl := (inviteByToken_mem hfound).2
  have hzero : (ts.map (RedeemState.claims inv.token)).sum = 0 := by
    rw [List.sum_eq_zero_iff_forall_eq_nat]
    intro n hn
    obtain ⟨u, hu, rfl⟩ := List.mem_map.mp hn
    rw [RedeemState.claims, if_neg]
    rw [Option.any_eq_true]
    rintro ⟨⟨j, now'⟩, hj, htok⟩
    have hlocked := (h.claimed u hu j now' hj).2.2.2
    rw [of_decide_eq_true htok] at hlocked
    exact hfree hlocked
  exact {
    consistent := hdb ▸ h.consistent.of_same rfl rfl rfl rfl le_rfl
    claimed := by
      refine mem_set (fun u hu j now' hj => ?_) fun j now' hj => ?_
      · obtain ⟨hfound, hunused, hexpires, hlocked⟩ := h.claimed u hu j now' hj
        rw [hdb]
        exact ⟨hfound, hunused, hexpires, List.mem_cons_of_mem _ hlocked⟩
      · rw [hclaim] at hj
        cases hj
        rw [hdb]
        exact ⟨hfound, hunused, hexpires, List.mem_cons_self⟩
    oneClaim := fun tok => by
      have hsum := sum_map_set hi t' (RedeemState.claims tok)
      have hold := RedeemState.claims_of_none hnone tok
      have hone := h.oneClaim tok
      by_cases htok : inv.token = tok
      · rw [← htok, RedeemState.claims_of_claim hclaim] at hsum
        rw [← htok] at hold ⊢
        omega
      · have hnew : t'.claims tok = 0 := by simp [RedeemState.claims, hclaim, htok]
        omega
    noClaim := fun hsqlite => by rw [hdialect] at hsqlite; cases hsqlite
    invitees := by
      have hold : ∀ t ∈ ts, ∀ u, t.invitee = some u → s'.db.Remembers u := fun t ht u hu => by
        rw [hdb]
        exact h.invitees t ht u hu
      exact mem_set hold fun u hu => hold t hmem u (hinvitee ▸ hu)
    balance := by
      have haccept := sum_map_set hi t' RedeemState.accepted
      have hcreate := sum_map_set hi t' RedeemState.created
      have hbalance := h.balance
      have hsame : s'.db.uses token = s.db.uses token := by rw [hdb]; rfl
      omega
    sound := mem_set h.sound hsound }

/-- An acceptance is committed: no other operation has claimed the invite. -/
theorem accept (h : Redeemable dialect B token start s ts) (hi : ts[i]? = some t) {tok : String}
    {teamId userId : Id} {role : TeamRole} {now : Timestamp} {joined : Accounts} {r : Unit}
    (hunused : s.db.Unused tok)
    (hjoin : (s.db.markAccepted B tok now).join B teamId userId role now = .ok (r, joined))
    (hdb : ∃ locks, s'.db = { joined with lockedInvites := locks } ∧
      ∀ tok' ∈ s.db.lockedInvites, tok' ≠ tok → tok' ∈ locks)
    (hcons : s'.db.Consistent) (hothers : ((ts.set i t').map (RedeemState.claims tok)).sum = 0)
    (hclaim : t'.claim = none) (hinvitee : t'.invitee = t.invitee)
    (hrem : ∀ u, s.db.Remembers u → s'.db.Remembers u)
    (haccepted : t'.accepted = t.accepted + if tok = token then 1 else 0)
    (hcreated : t'.created = t.created) (hsound : t'.sound) :
    Redeemable dialect B token start s' (ts.set i t') := by
  have hmem := List.mem_of_getElem? hi
  obtain ⟨locks, hdb, hlocks⟩ := hdb
  have hinvites : ∀ tok', s'.db.inviteByToken tok' =
      (s.db.markAccepted B tok now).inviteByToken tok' := by
    obtain ⟨_, rfl⟩ := join_frame hjoin
    rw [hdb]
    exact fun _ => rfl
  have hused : ∀ tok', s'.db.Unused tok' ↔ tok' ≠ tok ∧ s.db.Unused tok' := fun tok' => by
    simp only [Unused, hinvites tok']
    exact unused_markAccepted tok'
  exact {
    consistent := hcons
    claimed := by
      intro u hu j now' hj
      have hle := le_sum_map hu (RedeemState.claims tok)
      have hne : j.token ≠ tok := fun heq => by
        have hclaims := RedeemState.claims_of_claim hj
        rw [heq] at hclaims
        omega
      have hold : u ∈ ts := by
        rcases List.mem_or_eq_of_mem_set hu with hu | rfl
        · exact hu
        · rw [hclaim] at hj
          cases hj
      obtain ⟨hfound, hunused, hexpires, hlocked⟩ := h.claimed u hold j now' hj
      refine ⟨?_, hunused, hexpires, by rw [hdb]; exact hlocks _ hlocked hne⟩
      rw [hinvites, inviteByToken_markAccepted, if_neg hne, hfound]
    oneClaim := fun tok' => by
      have hsum := sum_map_set hi t' (RedeemState.claims tok')
      have hnew := RedeemState.claims_of_none hclaim tok'
      have hone := h.oneClaim tok'
      omega
    noClaim := fun hsqlite => mem_set (h.noClaim hsqlite) hclaim
    invitees := mem_set (fun t ht u hu => hrem u (h.invitees t ht u hu))
      fun u hu => hrem u (h.invitees t hmem u (hinvitee ▸ hu))
    balance := by
      have haccept := sum_map_set hi t' RedeemState.accepted
      have hcreate := sum_map_set hi t' RedeemState.created
      have hbalance := h.balance
      by_cases htok : tok = token
      · rw [if_pos htok] at haccepted
        have hbefore := uses_of_unused (htok ▸ hunused)
        have hafter := uses_of_not fun hn => ((hused token).mp hn).1 htok.symm
        omega
      · rw [if_neg htok] at haccepted
        have hle : s'.db.uses token ≤ s.db.uses token := uses_mono fun hn => ((hused token).mp hn).2
        omega
    sound := mem_set h.sound hsound }

theorem release (h : Redeemable dialect B token start s ts) (hi : ts[i]? = some t) {inv : Invite}
    {now : Timestamp} (hclaimed : t.claim = some (inv, now))
    (hdb : s'.db = { s.db with lockedInvites := s.db.lockedInvites.erase inv.token })
    (hclaim : t'.claim = none) (hinvitee : t'.invitee = t.invitee)
    (haccepted : t'.accepted = t.accepted) (hcreated : t'.created = t.created) (hsound : t'.sound) :
    Redeemable dialect B token start s' (ts.set i t') := by
  have hmem := List.mem_of_getElem? hi
  have hsum := sum_map_set hi t' (RedeemState.claims inv.token)
  have hone := h.oneClaim inv.token
  rw [RedeemState.claims_of_claim hclaimed, RedeemState.claims_of_none hclaim] at hsum
  have h' := h.set hi (.inr hclaim) (fun u hu => h.invitees t hmem u (hinvitee ▸ hu)) haccepted
    hcreated hsound
  exact { h' with
    consistent := hdb ▸ h.consistent.of_same rfl rfl rfl rfl le_rfl
    claimed := by
      intro u hu j now' hj
      have hle := le_sum_map hu (RedeemState.claims inv.token)
      have hne : j.token ≠ inv.token := fun heq => by
        have hclaims := RedeemState.claims_of_claim hj
        rw [heq] at hclaims
        omega
      obtain ⟨hfound, hunused, hexpires, hlocked⟩ := h'.claimed u hu j now' hj
      rw [hdb]
      exact ⟨hfound, hunused, hexpires, (List.mem_erase_of_ne hne).mpr hlocked⟩
    invitees := fun u hu v hv => by rw [hdb]; exact h'.invitees u hu v hv
    balance := by
      have hsame : s'.db.uses token = s.db.uses token := by rw [hdb]; rfl
      rw [hsame]
      exact h'.balance }

end Redeemable

variable {H : Host}

/-- Nobody else accepts an invite, creates one, or sends an account back to approval. -/
def Outsider : AuthCall → Prop :=
  Writes fun w => w.accepts = false ∧ w.issues = none ∧ w.deactivates = false

theorem Redeemable.outsider {c : AuthCall} (hc : Outsider c)
    (h : Redeemable dialect H.backend token start s ts) :
    Redeemable dialect H.backend token start (H.machine.step c s).2 ts := by
  have hsame : ∀ {s' : Server}, s'.db = s.db → Redeemable dialect H.backend token start s' ts :=
    fun hdb => h.state (hdb ▸ h.consistent) (.of_same (by rw [hdb]) (by rw [hdb]))
      fun _ hu => hdb ▸ hu
  cases c with
  | query q => exact hsame rfl
  | guard k => exact hsame rfl
  | write w =>
    rw [Host.machine_write]
    rcases Host.runWrite_state (H := H) w s with hs | ⟨r, d, hrun, hs⟩
    · rwa [hs]
    · rw [hs]
      exact h.state (h.consistent.run hrun) (keepsInvites_of_run h.consistent hrun hc.1 hc.2.1)
        fun u hu => hu.run hrun hc.2.2
  | reconcileUser userId groups occasion => exact hc.elim
  | advance elapsed clock => exact hsame rfl

theorem redemption_write {w : Write} {a : Except Error w.Reply} (hw : w.accepts = false) :
    Redemption ⟨s, .write w, a, s'⟩ = none := by
  cases w <;> first | rfl | cases hw

theorem redemption_error {w : Write} {e : Error} : Redemption ⟨s, .write w, .error e, s'⟩ = none := by
  cases w <;> rfl

theorem issued_write {w : Write} {a : Except Error w.Reply} (hw : w.issues = none) :
    Issued ⟨s, .write w, a, s'⟩ = none := by
  cases w <;> first | rfl | cases hw

theorem issued_error {w : Write} {e : Error} : Issued ⟨s, .write w, .error e, s'⟩ = none := by
  cases w <;> rfl

theorem claimAfter_error {claim : Option (Invite × Timestamp)} {w : Write} {e : Error} :
    claimAfter claim ⟨s, .write w, .error e, s'⟩ = claim ∨
      claimAfter claim ⟨s, .write w, .error e, s'⟩ = none := by
  cases w <;> first | exact .inl rfl | exact .inr rfl

theorem claimAfter_write {claim : Option (Invite × Timestamp)} {w : Write}
    {a : Except Error w.Reply} (hw : w.accepts = false) :
    claimAfter claim ⟨s, .write w, a, s'⟩ = claim := by
  cases w <;> first | rfl | cases hw

theorem sound_of_none {p : String × Id × Timestamp → Prop} {e : Transition authCalls Error Server}
    (h : Redemption e = none) : ∀ r ∈ Redemption e, p r := by
  intro r hr
  rw [h] at hr
  exact absurd hr (Option.not_mem_none r)

theorem redeems_eq {tok : String} {now : Timestamp} {userId : Id}
    {e : Transition authCalls Error Server} (h : Redemption e = some (tok, userId, now)) :
    (if redeems token e then 1 else 0) = if tok = token then 1 else 0 := by
  rw [redeems, h, Option.any_some]
  simp only [decide_eq_true_eq]

theorem issues_eq {tok : String} {e : Transition authCalls Error Server} (h : Issued e = some tok) :
    (if issues token e then 1 else 0) = if tok = token then 1 else 0 := by
  rw [issues, h]
  simp only [Option.some.injEq, decide_eq_true_eq]

theorem Redeemable.quiet (h : Redeemable dialect B token start s ts) (hi : ts[i]? = some t)
    {e : Transition authCalls Error Server}
    (hclaim : claimAfter t.claim e = t.claim ∨ claimAfter t.claim e = none)
    (hinvitee : ∀ u, inviteeAfter t.invitee e = some u → s.db.Remembers u)
    (hredemption : Redemption e = none) (hissued : Issued e = none) :
    Redeemable dialect B token start s
      (ts.set i ((redeemProtocol B dialect token).next t e)) := by
  have hsound := h.sound t (List.mem_of_getElem? hi)
  refine h.set hi hclaim hinvitee ?_ ?_ ⟨hsound, sound_of_none hredemption⟩
  · simp [redeemProtocol, redeems, hredemption]
  · simp [redeemProtocol, issues, hissued]

theorem Redeemable.write (h : Redeemable dialect H.backend token start s ts) (hi : ts[i]? = some t)
    {w : Write} {r : w.Reply} {d : Accounts} (hmay : MayRedeem dialect t w)
    (hrun : w.run H.backend s.clock s.db = .ok (r, d)) :
    Redeemable dialect H.backend token start { s with db := d } (ts.set i
      ((redeemProtocol H.backend dialect token).next t ⟨s, .write w, .ok r, { s with db := d }⟩)) := by
  have hmem := List.mem_of_getElem? hi
  have hcons := h.consistent.run hrun
  have hsound := h.sound t hmem
  cases haccepts : w.accepts with
  | false =>
    have hactive : w.deactivates = false := by
      cases w <;> first | exact hmay | cases haccepts
    have hrem : ∀ u, s.db.Remembers u → d.Remembers u := fun u hu => hu.run hrun hactive
    cases hissues : w.issues with
    | none =>
      have hstate : Redeemable dialect H.backend token start { s with db := d } ts :=
        h.state hcons (keepsInvites_of_run h.consistent hrun haccepts hissues) hrem
      exact hstate.quiet hi (.inl (claimAfter_write haccepts))
        (fun u hu => hstate.invitees t hmem u hu) (redemption_write haccepts) (issued_write hissues)
    | some tok =>
      cases w with
      | createInvite new =>
        obtain ⟨-, hnew, rfl, rfl⟩ := createInvite_eq_ok.mp hrun
        exact h.issue hi hnew rfl hcons rfl rfl rfl
          (congrArg (t.created + ·) (issues_eq rfl)) ⟨hsound, sound_of_none rfl⟩
      | _ => cases hissues
  | true =>
    cases w with
    | accept tok userId now =>
      obtain ⟨inv, hclaimable, -, hjoin⟩ := accept_eq_ok.mp hrun
      obtain ⟨hfound, hunused, -⟩ := claimable_eq_some.mp hclaimable
      have hnone : ∀ u ∈ ts, u.claim = none := h.noClaim hmay
      have hothers : ((ts.set i ((redeemProtocol H.backend dialect token).next t
          ⟨s, .write (.accept tok userId now), .ok r, { s with db := d }⟩)).map
            (RedeemState.claims tok)).sum = 0 := by
        rw [List.sum_eq_zero_iff_forall_eq_nat]
        intro n hn
        obtain ⟨u, hu, rfl⟩ := List.mem_map.mp hn
        refine RedeemState.claims_of_none (Redeemable.mem_set hnone ?_ u hu) tok
        exact hnone t hmem
      refine h.accept hi ⟨inv, hfound, hunused⟩ hjoin ⟨d.lockedInvites, rfl, ?_⟩ hcons hothers
        (hnone t hmem) rfl (fun u hu => hu.run hrun rfl) (congrArg (t.accepted + ·) (redeems_eq rfl))
        rfl ⟨hsound, ?_⟩
      · obtain ⟨_, rfl⟩ := join_frame hjoin
        exact fun _ hl _ => hl
      · rintro _ ⟨⟩
        exact redeems_of_accept hrun
    | acceptClaim tok now =>
      obtain ⟨hfree, hclaimable, rfl⟩ := acceptClaim_eq_ok.mp hrun
      exact h.claim hi hmay.1 hmay.2 hclaimable hfree rfl rfl rfl rfl rfl ⟨hsound, sound_of_none rfl⟩
    | acceptCommit tok teamId userId role now =>
      obtain ⟨inv, u, hclaim, rfl, rfl, rfl, hinvitee, rfl, hcheck⟩ := hmay
      obtain ⟨hfound, hunused, hexpires, -⟩ := h.claimed t hmem inv now hclaim
      obtain ⟨joined, hjoin, rfl⟩ := acceptCommit_eq_ok.mp hrun
      have hsum := sum_map_set hi ((redeemProtocol H.backend dialect token).next t
        ⟨s, .write (.acceptCommit inv.token inv.teamId u.id inv.role now), .ok r,
          { s with db := { joined with lockedInvites := s.db.lockedInvites.erase inv.token } }⟩)
        (RedeemState.claims inv.token)
      have hone := h.oneClaim inv.token
      rw [RedeemState.claims_of_claim hclaim, RedeemState.claims_of_none rfl] at hsum
      refine h.accept hi ⟨inv, hfound, hunused⟩ hjoin
        ⟨_, rfl, fun tok hl hne => (List.mem_erase_of_ne hne).mpr hl⟩ hcons (by omega) rfl rfl
        (fun u hu => hu.run hrun rfl) (congrArg (t.accepted + ·) (redeems_eq rfl)) rfl ⟨hsound, ?_⟩
      · rintro _ ⟨⟩
        -- the account that was read is still there, as the membership refers to it
        obtain ⟨⟨-, v, hv, hid⟩, -⟩ := upsertMember_eq_ok.mp hjoin
        obtain ⟨_, ⟨⟩, hactive, hemail⟩ := checkInvitee_eq_ok.mp hcheck
        obtain ⟨hsame, hstill⟩ := (h.invitees t hmem u hinvitee).2 v hv hid
        have hcheck' : checkInvitee inv.email (some v) = .ok () :=
          checkInvitee_eq_ok.mpr ⟨v, rfl, hstill hactive, hsame ▸ hemail⟩
        have huser : s.db.userById u.id = some v := hid ▸ h.consistent.userById_of_mem hv
        have hjoined : Redeems H.backend s.db joined inv.token u.id now :=
          redeems_of_join hfound hunused hexpires huser hcheck' hjoin
        exact hjoined
    | acceptRollback tok =>
      obtain ⟨inv, now, hclaim, rfl⟩ := hmay
      cases hrun
      exact h.release hi hclaim rfl rfl rfl rfl rfl ⟨hsound, sound_of_none rfl⟩
    | _ => cases haccepts

theorem redeemable_keeps : (redeemProtocol H.backend dialect token).Keeps H.machine
    (Redeemable dialect H.backend token start) := by
  intro s ts i t c fault hi hmay h
  have hmem := List.mem_of_getElem? hi
  have hsame : ∀ {s' : Server}, s'.db = s.db → Redeemable dialect H.backend token start s' ts :=
    fun hdb => h.state (hdb ▸ h.consistent) (.of_same (by rw [hdb]) (by rw [hdb]))
      fun _ hu => hdb ▸ hu
  cases c with
  | query q =>
    have hs : (H.machine.answer (.query q) fault s).2 = s := by cases fault <;> rfl
    rw [hs]
    refine h.quiet hi (.inl rfl) (fun u hu => ?_) rfl rfl
    cases fault with
    | some e => cases q <;> exact h.invitees t hmem u hu
    | none =>
      cases q with
      | findUserById id =>
        cases hfound : s.db.userById id with
        | none =>
          simp only [Machine.transition, Machine.answer, Host.machine_query, Query.eval, hfound] at hu
          exact h.invitees t hmem u hu
        | some v =>
          simp only [Machine.transition, Machine.answer, Host.machine_query, Query.eval, hfound] at hu
          obtain rfl : v = u := Option.some.inj hu
          exact remembers_of_mem h.consistent (userById_mem hfound).1
      | _ => exact h.invitees t hmem u hu
  | guard k =>
    have hs : (H.machine.answer (.guard k) fault s).2.db = s.db := by cases fault <;> rfl
    exact (hsame hs).quiet hi (.inl rfl) (fun u hu => (hsame hs).invitees t hmem u hu) rfl rfl
  | write w =>
    rcases hans : H.machine.answer (.write w) fault s with ⟨e | r, s'⟩
    · obtain rfl := Host.answer_error rfl hans
      simp only [Machine.transition, hans]
      exact h.quiet hi claimAfter_error (fun u hu => h.invitees t hmem u hu) redemption_error
        issued_error
    · cases fault with
      | some f => cases hans
      | none =>
        simp only [Machine.transition, hans]
        obtain ⟨d, hrun, rfl⟩ := Host.runWrite_eq_ok.mp hans
        exact h.write hi hmay hrun
  | reconcileUser userId groups occasion => exact hmay.elim
  | advance elapsed clock =>
    have hs : (H.machine.answer (.advance elapsed clock) fault s).2.db = s.db := by
      cases fault <;> rfl
    exact (hsame hs).quiet hi (.inl rfl) (fun u hu => (hsame hs).invitees t hmem u hu) rfl rfl

/-- Writes that neither accept nor send an account back to approval. -/
def Bypasses (w : Write) : Prop := w.accepts = false ∧ w.deactivates = false

def Idle (t : RedeemState) : Prop := t.claim = none

variable {α : Type}

theorem claimAfter_bypasses {c : AuthCall} (hc : Writes Bypasses c) {claim : Option (Invite × Timestamp)}
    {a : Except Error c.Reply} : claimAfter claim ⟨s, c, a, s'⟩ = claim := by
  cases c with
  | write w => exact claimAfter_write hc.1
  | reconcileUser userId groups occasion => exact hc.elim
  | _ => rfl

theorem bypasses_obeys {done failed : RedeemState → Prop} (hdone : ∀ t, Idle t → done t)
    (hfailed : ∀ t, Idle t → failed t) {p : Prog authCalls Error α} (hp : p.Calls (Writes Bypasses))
    (ht : Idle t) :
    p.Obeys H.machine (redeemProtocol B dialect token) (Prog.Ends done failed) t := by
  refine Prog.Obeys.ends_of_calls (T := Idle) (fun t c _ hc => ?_) (fun t c fault s ht hc => ?_) hdone
    hfailed hp ht
  · cases c with
    | write w =>
      cases w with
      | accept token userId now => cases hc.1
      | acceptClaim token now => cases hc.1
      | acceptCommit token teamId userId role now => cases hc.1
      | acceptRollback token => cases hc.1
      | _ => exact hc.2
    | reconcileUser userId groups occasion => exact hc
    | _ => trivial
  · exact (claimAfter_bypasses hc).trans ht

/-- In PostgreSQL the row of the invite stays locked until the commit or the rollback. -/
theorem pg_accept_obeys (tok : String) (userId : Id) (now : Timestamp) (ht : Idle t) :
    (pgRepositories.accept tok userId now).Obeys H.machine (redeemProtocol B .postgres token)
      (Prog.Ends Idle Idle) t := by
  refine Prog.Obeys.ask ⟨rfl, ht⟩ (fun s i s' hclaim => ?_) fun fault s e s' h => ht
  have htok : i.token = tok := by
    obtain ⟨d, hrun, rfl⟩ := Host.runWrite_eq_ok.mp hclaim
    exact (inviteByToken_mem (claimable_eq_some.mp (acceptClaim_eq_ok.mp hrun).2.1).1).2
  generalize hopen : (redeemProtocol B .postgres token).next t _ = t₁
  have hclaimed : t₁.claim = some (i, now) := hopen ▸ rfl
  clear hopen
  have hrollback : ∀ {t : RedeemState} {e : Error}, t.claim = some (i, now) →
      RollsBack H.machine (redeemProtocol B .postgres token) (Prog.Ends (α := Unit) Idle Idle)
        (.acceptRollback tok) t (.err e) := by
    intro t e ht
    refine ⟨⟨i, now, ht, htok⟩, fun fault s => ?_⟩
    cases fault <;> rfl
  refine orRollback_obeys (Prog.Obeys.ask trivial (fun s found s' h => ?_) fun fault s e s' h => ?_)
  · cases found with
    | none => exact hrollback hclaimed
    | some u =>
      have hid : u.id = userId := (userById_mem (Except.ok.inj (congrArg Prod.fst h))).2
      cases hcheck : Accounts.checkInvitee i.email (some u) with
      | error e => exact hrollback hclaimed
      | ok r =>
        refine Prog.Obeys.ask_last ⟨i, u, hclaimed, htok, rfl, rfl, rfl, hid, hcheck⟩
          (fun _ _ _ _ => rfl) fun fault s e s' h => hrollback hclaimed
  · exact hrollback hclaimed

theorem accept_obeys (tok : String) (userId : Id) (now : Timestamp) (ht : Idle t) :
    (dialect.repositories.accept tok userId now).Obeys H.machine (redeemProtocol B dialect token)
      (Prog.Ends Idle Idle) t := by
  cases dialect with
  | sqlite => exact Prog.Obeys.ask_last rfl (fun _ _ _ _ => ht) fun _ _ _ _ _ => ht
  | postgres => exact pg_accept_obeys tok userId now ht

section Requests

variable {app : AppState} {τ : Type} {m : Machine authCalls Error Server}
  {P : Protocol authCalls Error Server τ} {T done failed : τ → Prop} {may : Write → Prop} {t : τ}

/-- A request to accept an invite: calls of other kinds before the acceptance, and none after it. -/
theorem acceptInvite_ends (hsession : ∀ id userId expiresAt, may (.createSession id userId expiresAt))
    (hcreate : ∀ new : NewUser, new.instanceRole = .member → may (.createAccount new false))
    (hother : ∀ {α : Type} {p : Prog authCalls Error α} {t : τ}, p.Calls (Writes may) → T t →
      p.Obeys m P (Prog.Ends T failed) t)
    (haccept : ∀ token userId now t, T t →
      (app.dialect.repositories.accept token userId now).Obeys m P (Prog.Ends done failed) t)
    (hdone : ∀ t, T t → done t) (cookies : Option String) (token ip : String)
    (req : AcceptInviteRequest) (drawn : Drawn) (ht : T t) :
    (acceptInvite app cookies token ip req drawn).Obeys m P (Prog.Ends done failed) t := by
  have hfail : ∀ {t : τ}, T t → failed t := fun ht =>
    hother (p := (Prog.fail (.auth "") : Prog authCalls Error Unit)) trivial ht
  have hredeem : ∀ {token : String} {user : UserRow} {session : Option String} {t : τ}, T t →
      (redeem app token user session).Obeys m P (Prog.Ends done failed) t := fun ht =>
    (hother (get_calls .now) ht).andThen fun now t ht => (haccept _ _ now t ht).andThen fun _ _ h => h
  refine (hother (currentUser_calls cookies) ht).andThen fun current t ht => ?_
  refine (hother (lift_calls _) ht).andThen fun _ t ht => ?_
  refine (hother (loadUsableInvite_calls token) ht).andThen fun invite t ht => ?_
  refine (hother (lift_calls _) ht).andThen fun _ t ht => ?_
  cases current with
  | some user => exact hredeem ht
  | none =>
    refine (hother (guard_calls _) ht).andThen fun decision t ht => ?_
    cases decision with
    | locked retryAfterSecs => exact hdone t ht
    | allowed =>
      have hresolve := resolveOrRegisterInvitee_calls hsession hcreate app invite req drawn
      refine (hother hresolve.result ht).andThen fun result t ht => ?_
      split
      · exact (hother (guard_calls _) ht).andThen fun _ t ht => hredeem ht
      · exact (hother (guard_calls _) ht).andThen fun _ t ht => hfail ht
      · exact hfail ht

end Requests

variable {app : AppState}

theorem InviteOp.obeys (op : InviteOp) (ht : Idle t) :
    (op.prog app).Obeys H.machine (redeemProtocol B app.dialect token) (Prog.Ends Idle Idle) t := by
  have hput : ∀ {w : Write} {t : RedeemState}, Bypasses w → Idle t →
      (put w).Obeys H.machine (redeemProtocol B app.dialect token) (Prog.Ends Idle Idle) t :=
    fun hw ht => bypasses_obeys (fun _ ht => ht) (fun _ ht => ht) (put_calls hw) ht
  cases op with
  | member op =>
    cases op with
    | acceptInvite tok userId now => exact accept_obeys tok userId now ht
    | _ => exact hput ⟨rfl, rfl⟩ ht
  | request cookies tok ip req drawn =>
    have hobeys : (acceptInvite app cookies tok ip req drawn).Obeys H.machine
        (redeemProtocol B app.dialect token) (Prog.Ends Idle Idle) t :=
      acceptInvite_ends (fun _ _ _ => ⟨rfl, rfl⟩) (fun _ _ => ⟨rfl, rfl⟩)
        (bypasses_obeys (fun _ ht => ht) fun _ ht => ht)
        (fun tok userId now _ => accept_obeys tok userId now) (fun _ ht => ht) cookies tok ip req drawn ht
    exact hobeys.andThen fun _ _ ht => ht
  | create new => exact (hput ⟨rfl, rfl⟩ ht).andThen fun _ _ ht => ht
  | revoke tok => exact hput ⟨rfl, rfl⟩ ht

def Write.registers : Write → Bool
  | createAccount _ false => true
  | createSession _ _ _ => true
  | _ => false

def AuthCall.registers : AuthCall → Bool
  | write w => w.registers
  | _ => false

def KeepsMembers (e : Transition authCalls Error Server) : Prop :=
  e.after.db.invites = e.before.db.invites ∧ e.after.db.teamMembers = e.before.db.teamMembers

instance (e : Transition authCalls Error Server) : Decidable (KeepsMembers e) :=
  inferInstanceAs (Decidable (_ ∧ _))

/-- The call registers an account, which joins the default teams: they are assigned, and there are
some. -/
def Enrolls (B : AccountBackend) (e : Transition authCalls Error Server) : Prop :=
  match e with
  | ⟨s, .write (.createAccount _ false), .ok _, _⟩ =>
    B.assignDefaultTeams = true ∧ s.db.defaultTeams ≠ []
  | _ => False

theorem registers_obeys {α : Type} {p : Prog authCalls Error α} {t : Prop}
    (hp : p.Calls (Writes fun w => w.registers = true)) (ht : t) :
    p.Obeys H.machine (rowsProtocol fun c => !c.registers)
      (Prog.Ends (fun t => t) fun t => t) t := by
  have hnext : ∀ c fault s, Writes (fun w => w.registers = true) c → (!c.registers) = true →
      KeepsRows (H.machine.transition c fault s) := by
    intro c fault s hc hwatched
    cases c with
    | write w =>
      rw [show (AuthCall.write w).registers = true from hc] at hwatched
      cases hwatched
    | reconcileUser userId groups occasion => exact hc.elim
    | query q => cases fault <;> rfl
    | guard k => cases fault <;> rfl
    | advance elapsed clock => cases fault <;> rfl
  refine Prog.Obeys.ends_of_calls (T := fun t => t) (fun t c _ hc => Writes.isSync hc)
    (fun t c fault s ht hc => ?_) (fun _ ht => ht) (fun _ ht => ht) hp ht
  exact ⟨ht, hnext c fault s hc⟩

/-- An operation that fails has changed rows at most by registering its account. -/
theorem InviteOp.refusal (op : InviteOp) :
    (op.prog app).Obeys H.machine (rowsProtocol fun c => !c.registers) Refusal True := by
  cases op with
  | member op => exact op.refusal app.dialect
  | request cookies tok ip req drawn =>
    have hobeys : (acceptInvite app cookies tok ip req drawn).Obeys H.machine
        (rowsProtocol fun c => !c.registers) Refusal True :=
      acceptInvite_ends (T := fun t => t) (fun _ _ _ => rfl) (fun _ _ => rfl) registers_obeys
        (fun tok userId now _ => accept_refusal app.dialect tok userId now) (fun _ _ => trivial)
        cookies tok ip req drawn trivial
    exact hobeys.andThen fun _ _ _ => trivial
  | create new =>
    have hobeys : (put (.createInvite new)).Obeys H.machine (rowsProtocol fun c => !c.registers)
        Refusal True := put_refusal trivial
    exact hobeys.andThen fun _ _ _ => trivial
  | revoke tok => exact put_refusal trivial

theorem addUser_members_iff (B : AccountBackend) (d : Accounts) (new : NewUser) (now : Timestamp) :
    (d.addUser B new now).teamMembers = d.teamMembers ↔
      ¬ (B.assignDefaultTeams = true ∧ d.defaultTeams ≠ []) := by
  unfold Accounts.addUser
  split_ifs with hassign
  · simp [hassign]
  · simp [hassign]

/-- Among the calls that change no rows or register an account, those that enroll it change the
memberships. -/
theorem keepsMembers_iff {e : Transition authCalls Error Server} (he : e.Sound H.machine)
    (hrows : e.call.registers = false → KeepsRows e) : KeepsMembers e ↔ ¬ Enrolls H.backend e := by
  obtain ⟨s, c, a, s'⟩ := e
  cases hcall : c.registers with
  | false =>
    have hsame : s'.db.rows = s.db.rows := hrows hcall
    have hinvites := congrArg (fun d : Accounts => d.invites) hsame
    have hmembers := congrArg (fun d : Accounts => d.teamMembers) hsame
    refine iff_of_true ⟨hinvites, hmembers⟩ fun henrolls => ?_
    cases c with
    | write w =>
      cases w with
      | createAccount new initialOwner =>
        cases initialOwner with
        | false => cases hcall
        | true => cases a <;> exact henrolls
      | _ => exact henrolls
    | _ => exact henrolls
  | true =>
    obtain ⟨fault, hans⟩ := he
    cases c with
    | write w =>
      cases a with
      | error e =>
        have hans : H.machine.answer (.write w) fault s = (.error e, s') := hans
        obtain rfl := Host.answer_error rfl hans
        refine iff_of_true ⟨rfl, rfl⟩ fun henrolls => ?_
        cases w with
        | createAccount new initialOwner => cases initialOwner <;> exact henrolls
        | _ => exact henrolls
      | ok r =>
        cases fault with
        | some f => cases hans
        | none =>
          have hans : H.runWrite w s = (.ok r, s') := hans
          obtain ⟨d, hrun, rfl⟩ := Host.runWrite_eq_ok.mp hans
          have hframe := Write.frame hrun
          cases w with
          | createAccount new initialOwner =>
            cases initialOwner with
            | true => cases hcall
            | false =>
              obtain ⟨-, -, -, rfl⟩ := createAccount_eq_ok.mp hrun
              exact (and_iff_right rfl).trans (addUser_members_iff ..)
          | createSession id userId expiresAt =>
            exact iff_of_true ⟨hframe.invites rfl, hframe.members rfl⟩ fun henrolls => henrolls
          | _ => cases hcall
    | _ => cases hcall

def Host.on (H : Host) (dialect : Dialect) (assignDefaultTeams : Bool) : Host :=
  { H with backend := dialect.backend assignDefaultTeams }

theorem lt_of_not_le {assign : Bool} {expiresAt now : Timestamp}
    (hexpires : expiresAt.FourDigitYear) (hnow : now.FourDigitYear)
    (h : (dialect.backend assign).le expiresAt now = false) : now < expiresAt := by
  cases dialect with
  | sqlite =>
    have hlt : now.toRfc3339 < expiresAt.toRfc3339 := by
      simpa [Dialect.backend, sqliteAccounts, sqlite] using h
    by_contra hle
    exact (Timestamp.toRfc3339_le_iff hexpires hnow).mpr (not_lt.mp hle) hlt
  | postgres =>
    have hlt : now.truncMicros < expiresAt.truncMicros := by
      simpa [Dialect.backend, postgresAccounts, postgres] using h
    by_contra hle
    exact absurd (Timestamp.truncMicros_mono (not_lt.mp hle)) (not_le.mpr hlt)

theorem sound_after (h : List (Transition authCalls Error Server)) :
    ((redeemProtocol B dialect token).after t h).sound ↔ t.sound ∧ ∀ e ∈ h, ∀ r ∈ Redemption e,
      Redeems B e.before.db e.after.db r.1 r.2.1 r.2.2 := by
  induction h generalizing t with
  | nil => simp
  | cons e h ih =>
    refine ih.trans ?_
    rw [List.forall_mem_cons, ← and_assoc]
    rfl

section InviteRuns

variable (H : Host) (app : AppState) (assignDefaultTeams : Bool) (ops : List InviteOp) (s : Server)
  (turns : List (Turn authCalls Error))

abbrev inviteRun : Pool authCalls Error Server Unit :=
  (Pool.start (ops.map (InviteOp.prog app)) s).run (H.on app.dialect assignDefaultTeams).machine turns

variable {H app assignDefaultTeams ops s turns}

/-- Every acceptance is sound, and an invite is not accepted more often than it could be. -/
theorem inviteRun_redeemable (hs : s.db.Consistent) (hturns : ∀ c, Turn.other c ∈ turns → Outsider c)
    (token : String) :
    (∀ th ∈ (inviteRun H app assignDefaultTeams ops s turns).threads,
      ((redeemProtocol (app.dialect.backend assignDefaultTeams) app.dialect token).after .start
        th.history).sound) ∧
      (inviteRun H app assignDefaultTeams ops s turns).tally (redeems token) ≤
        s.db.uses token + (inviteRun H app assignDefaultTeams ops s turns).tally (issues token) := by
  have hprogs : ∀ q ∈ ops.map (InviteOp.prog app),
      q.Obeys (H.on app.dialect assignDefaultTeams).machine
        (redeemProtocol (app.dialect.backend assignDefaultTeams) app.dialect token)
        (Prog.Ends Idle Idle) .start := by
    intro q hq
    obtain ⟨op, -, rfl⟩ := List.mem_map.mp hq
    exact op.obeys rfl
  have hstart : Redeemable app.dialect (app.dialect.backend assignDefaultTeams) token
      (s.db.uses token) s (List.replicate (ops.map (InviteOp.prog app)).length .start) := {
    consistent := hs
    claimed := fun t ht i now h => by
      rw [List.eq_of_mem_replicate ht] at h
      cases h
    oneClaim := fun tok => by simp [RedeemState.start, RedeemState.claims]
    noClaim := fun _ t ht => by rw [List.eq_of_mem_replicate ht]; rfl
    invitees := fun t ht => by rw [List.eq_of_mem_replicate ht]; exact nofun
    balance := by simp [RedeemState.start]
    sound := fun t ht => by rw [List.eq_of_mem_replicate ht]; trivial }
  obtain ⟨-, hinv⟩ := Pool.Obeys.run_start redeemable_keeps (fun _ _ _ hc h => h.outsider hc)
    hprogs hstart hturns
  refine ⟨fun th hth => hinv.sound _ (List.mem_map.mpr ⟨th, hth, rfl⟩), ?_⟩
  rw [Pool.tally_eq (redeemProtocol (app.dialect.backend assignDefaultTeams) app.dialect token) .start
      RedeemState.accepted rfl fun _ _ => rfl,
    Pool.tally_eq (redeemProtocol (app.dialect.backend assignDefaultTeams) app.dialect token) .start
      RedeemState.created rfl fun _ _ => rfl]
  exact Nat.le_trans (Nat.le_add_right _ _) hinv.balance

/-- What fails has changed memberships only by enrolling an account. -/
theorem inviteRun_failed (hturns : ∀ c, Turn.other c ∈ turns → Outsider c)
    {th : Thread authCalls Error Server Unit}
    (hth : th ∈ (inviteRun H app assignDefaultTeams ops s turns).threads)
    (hended : th.rest.ended = true) (hfailed : th.rest ≠ .ret ()) :
    (∀ c ∈ th.history, KeepsMembers c) ↔
      ∀ c ∈ th.history, ¬ Enrolls (app.dialect.backend assignDefaultTeams) c := by
  have hprogs : ∀ q ∈ ops.map (InviteOp.prog app),
      q.Obeys (H.on app.dialect assignDefaultTeams).machine (rowsProtocol fun c => !c.registers)
        Refusal True := by
    intro q hq
    obtain ⟨op, -, rfl⟩ := List.mem_map.mp hq
    exact op.refusal
  have hobeys := (Pool.Obeys.run_start (J := fun _ _ => True)
    (fun _ _ _ _ _ _ _ _ _ => trivial) (fun _ _ _ _ _ => trivial) hprogs trivial hturns).1 th hth
  have hrows : (rowsProtocol fun c => !c.registers).after True th.history := by
    cases hrest : th.rest with
    | ret a => exact absurd hrest hfailed
    | fail e => rwa [hrest] at hobeys
    | abort => rwa [hrest] at hobeys
    | call c next =>
      rw [hrest] at hended
      cases hended
  have hsound : List.Forall₂ (Thread.Sound (H.on app.dialect assignDefaultTeams).machine
      fun _ => True) (ops.map (InviteOp.prog app))
      (inviteRun H app assignDefaultTeams ops s turns).threads :=
    (Pool.run_sound (fun _ _ _ => trivial) trivial (Pool.start_sound _ s) turns).2
  obtain ⟨q, -, hthread⟩ := exists_of_forall₂_mem hsound hth
  refine forall₂_congr fun c hc => keepsMembers_iff (hthread.calls c hc).2 fun hcall => ?_
  exact (Protocol.after_always.mp hrows).2 c hc (congrArg not hcall)

end InviteRuns

/-- In every interleaving of acceptances with revocations, other operations on members and all calls
that neither accept nor create invites, syncs apart (where they run, invites are off): an invite is
accepted at most once; an acceptance that succeeds finds it unused and unexpired, for an active
account with its address, and leaves a member with the role; one that fails leaves the invites and
the memberships as they were, if and only if it has not registered an account in default teams. -/
theorem invite_redeemed_once (H : Host) (app : AppState) (assignDefaultTeams : Bool)
    (ops : List InviteOp) (s : Server) (hs : s.db.Consistent) (turns : List (Turn authCalls Error))
    (hturns : ∀ c, Turn.other c ∈ turns → Outsider c) :
    let B := app.dialect.backend assignDefaultTeams
    let p := (Pool.start (ops.map (InviteOp.prog app)) s).run
      (H.on app.dialect assignDefaultTeams).machine turns
    (∀ token, p.tally (redeems token) ≤ s.db.uses token + p.tally (issues token) ∧
      (p.tally (issues token) = 0 → p.tally (redeems token) ≤ 1)) ∧
      (∀ th ∈ p.threads, ∀ e ∈ th.history, ∀ r ∈ Redemption e,
        Redeems B e.before.db e.after.db r.1 r.2.1 r.2.2 ∧
          ∀ i ∈ e.before.db.inviteByToken r.1, i.expiresAt.FourDigitYear → r.2.2.FourDigitYear →
            r.2.2 < i.expiresAt) ∧
      ∀ th ∈ p.threads, th.rest.ended = true → th.rest ≠ .ret () →
        ((∀ c ∈ th.history, KeepsMembers c) ↔ ∀ c ∈ th.history, ¬ Enrolls B c) := by
  intro B p
  refine ⟨fun token => ?_, fun th hth e he r hr => ?_, fun th hth => inviteRun_failed hturns hth⟩
  · have hle : p.tally (redeems token) ≤ s.db.uses token + p.tally (issues token) :=
      (inviteRun_redeemable hs hturns token).2
    have hone : s.db.uses token ≤ 1 := uses_le_one
    exact ⟨hle, fun hissued => by omega⟩
  · have hsound : ((redeemProtocol B app.dialect r.1).after .start th.history).sound :=
      (inviteRun_redeemable hs hturns r.1).1 th hth
    have hredeems := (sound_after th.history).mp hsound |>.2 e he r hr
    refine ⟨hredeems, fun i hi hexpires hnow => ?_⟩
    obtain ⟨j, hj, -, hle, -⟩ := hredeems
    obtain rfl : i = j := Option.some.inj (hi.symm.trans hj)
    exact lt_of_not_le hexpires hnow hle

def invitedTwo : Server :=
  { twoAdmins with
    db := { twoAdmins.db with
      invites := [⟨"t", 1, .admin, none, none, .epoch, .atSecond 60, none⟩] } }

theorem invite_redeemed_once_of_two :
    ((Pool.start ([.member (.acceptInvite "t" 2 .epoch), .member (.acceptInvite "t" 3 .epoch)].map
      (InviteOp.prog (.plain .postgres))) invitedTwo).run
        (Host.plain.on .postgres true).machine
        [.thread 0 none, .thread 1 none, .thread 0 none, .thread 0 none]).tally (redeems "t") ≤ 1 :=
  ((invite_redeemed_once .plain (.plain .postgres) true
    [.member (.acceptInvite "t" 2 .epoch), .member (.acceptInvite "t" 3 .epoch)] invitedTwo
    ⟨by decide, by decide, by decide, by decide, by decide, by decide, by decide⟩
    [.thread 0 none, .thread 1 none, .thread 0 none, .thread 0 none] (by simp)).1 "t").2 rfl

/-- An open invite, where every new account joins the team that issued it. -/
def openDefault : Server :=
  { Server.new with
    db := { Accounts.new with
      teams := [⟨1, "web", .epoch, .epoch, none⟩]
      defaultTeams := [1]
      invites := [⟨"t", 1, .admin, none, none, .epoch, .atSecond 60, none⟩]
      nextId := 2 } }

def stranger (email sessionId : String) : InviteOp :=
  .request none "t" "ip" ⟨some email, some "password", none⟩ ⟨sessionId, "1"⟩

def strangersRun : Pool authCalls Error Server Unit :=
  (Pool.start ([stranger "ann@a.b" "s1", stranger "bob@a.b" "s2"].map (InviteOp.prog (.plain .sqlite)))
    openDefault).run (Host.plain.on .sqlite true).machine
      (List.replicate 12 [.thread 0 none, .thread 1 none]).flatten

def failedWithChange (th : Thread authCalls Error Server Unit) : Bool :=
  match th.rest with
  | .fail _ => decide (¬ ∀ c ∈ th.history, KeepsMembers c)
  | _ => false

theorem failed_acceptance_enrolls : ¬ ∀ th ∈ strangersRun.threads, th.rest.ended = true →
    th.rest ≠ .ret () → ∀ c ∈ th.history, KeepsMembers c := by
  intro h
  have hfailed : strangersRun.threads.any failedWithChange = true := by decide +kernel
  obtain ⟨th, hth, hchanged⟩ := List.any_eq_true.mp hfailed
  have hkeeps := h th hth
  unfold failedWithChange at hchanged
  cases hrest : th.rest with
  | fail e =>
    rw [hrest] at hchanged hkeeps
    refine of_decide_eq_true hchanged (hkeeps rfl fun hret => ?_)
    cases hret
  | _ =>
    rw [hrest] at hchanged
    cases hchanged

end Auth

end Soika
