import Soika.Accounts.Owners

/-! # The first owner

The requests that create, promote, demote, remove and convert accounts, run together. At most
one of any number of setups inserts an owner, and it does so where there was none.
-/

namespace Soika.Auth

open Interaction Accounts

/-- The requests that change who the owners are, or create and convert accounts. -/
inductive AccountOp where
  | setup (body : SetupRequest) (drawn : Drawn)
  | register (body : RegisterRequest) (drawn : Drawn)
  | provision (email displayName : String) (status : UserStatus)
  | setUserRole (cookies : Option String) (id : Id) (role : InstanceRole)
  | deleteUser (cookies : Option String) (id : Id)
  | convertToSso (id : Id)
  | acceptInvite (cookies : Option String) (token ip : String) (req : AcceptInviteRequest)
      (drawn : Drawn)

def provisioned (email displayName : String) (status : UserStatus) : NewUser :=
  ⟨email, displayName, "", .member, .oidc, status⟩

/-- An operation that ends says which it was. -/
def AccountOp.prog (app : AppState) (op : AccountOp) : Prog authCalls Error AccountOp :=
  match op with
  | setup body drawn => do
    let _ ← Auth.setup app body drawn
    return op
  | register body drawn => do
    let _ ← Auth.register app body drawn
    return op
  | provision email displayName status => do
    let _ ← put (.createAccount (provisioned email displayName status) false)
    return op
  | setUserRole cookies id role => do
    let _ ← Api.setUserRole app cookies id role
    return op
  | deleteUser cookies id => do
    let _ ← Api.deleteUser app cookies id
    return op
  | convertToSso id => do
    let _ ← Auth.convertToSso id
    return op
  | acceptInvite cookies token ip req drawn => do
    let _ ← Auth.acceptInvite app cookies token ip req drawn
    return op

def Installs (e : Transition authCalls Error Server) : Bool :=
  match e with
  | ⟨_, .write (.createAccount _ true), .ok _, _⟩ => true
  | ⟨_, .write (.setupInsert _), .ok _, _⟩ => true
  | _ => false

def ReadsOwner (e : Transition authCalls Error Server) : Prop :=
  match e with
  | ⟨_, .query (.findUserById _), .ok user, _⟩ => ∃ u : UserRow, user = some u ∧ u.instanceRole = .owner
  | _ => False

/-- How far a request is: what it has read, what it holds, and what it has inserted. -/
structure SetupState where
  authorized : Prop
  holds : ℕ
  installed : ℕ
  /-- What it inserted was the first owner. -/
  first : Prop

def SetupState.start : SetupState := ⟨False, 0, 0, True⟩

def holdsAfter (n : ℕ) (e : Transition authCalls Error Server) : ℕ :=
  match e with
  | ⟨_, .write .setupLock, .ok _, _⟩ => 1
  | ⟨_, .write (.setupInsert _), .ok _, _⟩ => 0
  | ⟨_, .write .setupRollback, _, _⟩ => 0
  | _ => n

def MayWrite (app : AppState) (t : SetupState) : Write → Prop
  | .createAccount new true =>
    app.adminUsers.isEmpty = true ∧ app.dialect = .sqlite ∧ new.instanceRole = .owner
  | .createAccount new false => new.instanceRole ≠ .owner
  | .setupLock => app.adminUsers.isEmpty = true ∧ app.dialect = .postgres
  | .setupInsert new => t.holds = 1 ∧ new.instanceRole = .owner
  | .setupRollback => t.holds = 1
  | .setInstanceRole _ role => role = .owner → t.authorized ∨ app.adminUsers.isEmpty = false
  | _ => True

def ownerProtocol (app : AppState) (s₀ : Server) : Protocol authCalls Error Server SetupState where
  may t := Writes (MayWrite app t)
  next t e :=
    ⟨t.authorized ∨ ReadsOwner e, holdsAfter t.holds e,
      t.installed + if Installs e then 1 else 0,
      t.first ∧ (Installs e = true → ¬ s₀.db.HasOwner ∧ ¬ e.before.db.HasOwner)⟩

/-- Who holds the lock of a setup found no owner, and nobody became one since. -/
structure Guarded (app : AppState) (s₀ s : Server) (ts : List SetupState) : Prop where
  consistent : s.db.Consistent
  start : s₀.db.HasOwner → s.db.HasOwner
  authorized : ∀ t ∈ ts, t.authorized → s.db.HasOwner
  holds : ∀ t ∈ ts, 0 < t.holds → s.db.settingsLocked = true
  locked : s.db.settingsLocked = true → ¬ s.db.HasOwner
  unlocked : app.adminUsers.isEmpty = false ∨ app.dialect = .sqlite → s.db.settingsLocked = false
  oneHolds : (ts.map SetupState.holds).sum ≤ 1
  oneInstalled : (ts.map SetupState.installed).sum ≤ 1
  installed : 0 < (ts.map SetupState.installed).sum → s.db.HasOwner
  first : ∀ t ∈ ts, t.first

variable {app : AppState} {H : Host} {s₀ s s' : Server} {ts : List SetupState} {t t' : SetupState}
  {i : ℕ}

namespace Guarded

theorem mem_set {p : SetupState → Prop} (hp : ∀ t ∈ ts, p t) (ht' : p t') :
    ∀ t ∈ ts.set i t', p t := by
  intro t ht
  rcases List.mem_or_eq_of_mem_set ht with ht | rfl
  · exact hp t ht
  · exact ht'

/-- The state changes, but not the lock, and while that is held no owner appears. -/
theorem state (h : Guarded app s₀ s ts) (hcons : s'.db.Consistent)
    (hkeep : s.db.HasOwner → s'.db.HasOwner)
    (hlocked : s'.db.settingsLocked = s.db.settingsLocked)
    (hnew : s.db.settingsLocked = true → s'.db.HasOwner → s.db.HasOwner) :
    Guarded app s₀ s' ts where
  consistent := hcons
  start h₀ := hkeep (h.start h₀)
  authorized u hu ha := hkeep (h.authorized u hu ha)
  holds u hu hp := hlocked ▸ h.holds u hu hp
  locked hl ho := h.locked (hlocked ▸ hl) (hnew (hlocked ▸ hl) ho)
  unlocked hu := hlocked ▸ h.unlocked hu
  oneHolds := h.oneHolds
  oneInstalled := h.oneInstalled
  installed hp := hkeep (h.installed hp)
  first := h.first

/-- A request goes on without taking the lock or inserting an owner. -/
theorem set (h : Guarded app s₀ s ts) (hi : ts[i]? = some t) (hauth : t'.authorized → s.db.HasOwner)
    (hholds : t'.holds ≤ t.holds) (hinstalled : t'.installed = t.installed) (hfirst : t'.first) :
    Guarded app s₀ s (ts.set i t') := by
  have hsumHolds := sum_map_set hi t' SetupState.holds
  have hsumInstalled := sum_map_set hi t' SetupState.installed
  have hone := h.oneHolds
  have hsame : ((ts.set i t').map SetupState.installed).sum =
      (ts.map SetupState.installed).sum := by omega
  exact { h with
    authorized := mem_set h.authorized hauth
    holds := mem_set h.holds fun hp => h.holds t (List.mem_of_getElem? hi) (by omega)
    oneHolds := by omega
    oneInstalled := hsame ▸ h.oneInstalled
    installed := fun hp => h.installed (hsame ▸ hp)
    first := mem_set h.first hfirst }

theorem lock (h : Guarded app s₀ s ts) (hi : ts[i]? = some t)
    (happ : app.adminUsers.isEmpty = true ∧ app.dialect = .postgres)
    (hfree : s.db.settingsLocked = false) (hnone : ¬ s.db.HasOwner)
    (hdb : s'.db = { s.db with settingsLocked := true }) (hauth : t'.authorized → s.db.HasOwner)
    (hholds : t'.holds = 1) (hinstalled : t'.installed = t.installed) (hfirst : t'.first) :
    Guarded app s₀ s' (ts.set i t') := by
  have howner : s'.db.HasOwner ↔ s.db.HasOwner := by rw [hdb]; exact Iff.rfl
  have hsumInstalled := sum_map_set hi t' SetupState.installed
  have hsame : ((ts.set i t').map SetupState.installed).sum =
      (ts.map SetupState.installed).sum := by omega
  have hzero : (ts.map SetupState.holds).sum = 0 := by
    rw [List.sum_eq_zero_iff_forall_eq_nat]
    intro n hn
    obtain ⟨u, hu, rfl⟩ := List.mem_map.mp hn
    by_contra hpos
    exact absurd (h.holds u hu (Nat.pos_of_ne_zero hpos)) (by simp [hfree])
  have hsumHolds := sum_map_set hi t' SetupState.holds
  exact {
    consistent := hdb ▸ h.consistent.of_same rfl rfl rfl rfl le_rfl
    start := fun h₀ => howner.mpr (h.start h₀)
    authorized := mem_set (fun u hu ha => howner.mpr (h.authorized u hu ha))
      fun ha => howner.mpr (hauth ha)
    holds := fun _ _ _ => by rw [hdb]
    locked := fun _ ho => hnone (howner.mp ho)
    unlocked := by rintro (hu | hu) <;> simp_all
    oneHolds := by omega
    oneInstalled := hsame ▸ h.oneInstalled
    installed := fun hp => howner.mpr (h.installed (hsame ▸ hp))
    first := mem_set h.first hfirst }

/-- The first owner is inserted, and no setup holds the lock any more. -/
theorem install (h : Guarded app s₀ s ts) (hi : ts[i]? = some t) (hcons : s'.db.Consistent)
    (hnone : ¬ s.db.HasOwner) (howner : s'.db.HasOwner) (hfree : s'.db.settingsLocked = false)
    (hothers : (ts.map SetupState.holds).sum = t.holds) (hholds : t'.holds = 0)
    (hinstalled : t'.installed = t.installed + 1) (hfirst : t'.first) :
    Guarded app s₀ s' (ts.set i t') := by
  have hsumHolds := sum_map_set hi t' SetupState.holds
  have hsumInstalled := sum_map_set hi t' SetupState.installed
  have hzero : (ts.map SetupState.installed).sum = 0 := by
    by_contra hpos
    exact hnone (h.installed (Nat.pos_of_ne_zero hpos))
  have hle := le_sum_map (List.mem_of_getElem? hi) SetupState.installed
  have hnoLock : ((ts.set i t').map SetupState.holds).sum = 0 := by omega
  exact {
    consistent := hcons
    start := fun _ => howner
    authorized := fun _ _ _ => howner
    holds := fun u hu hp => by
      have := le_sum_map hu SetupState.holds
      omega
    locked := fun hl => by simp [hfree] at hl
    unlocked := fun _ => hfree
    oneHolds := by omega
    oneInstalled := by omega
    installed := fun _ => howner
    first := mem_set h.first hfirst }

theorem unlock (h : Guarded app s₀ s ts) (hi : ts[i]? = some t) (ht : t.holds = 1)
    (hdb : s'.db = { s.db with settingsLocked := false }) (hauth : t'.authorized → s.db.HasOwner)
    (hholds : t'.holds = 0) (hinstalled : t'.installed = t.installed) (hfirst : t'.first) :
    Guarded app s₀ s' (ts.set i t') := by
  have howner : s'.db.HasOwner ↔ s.db.HasOwner := by rw [hdb]; exact Iff.rfl
  have hsumHolds := sum_map_set hi t' SetupState.holds
  have hsumInstalled := sum_map_set hi t' SetupState.installed
  have hone := h.oneHolds
  have hsame : ((ts.set i t').map SetupState.installed).sum =
      (ts.map SetupState.installed).sum := by omega
  exact {
    consistent := hdb ▸ h.consistent.of_same rfl rfl rfl rfl le_rfl
    start := fun h₀ => howner.mpr (h.start h₀)
    authorized := mem_set (fun u hu ha => howner.mpr (h.authorized u hu ha))
      fun ha => howner.mpr (hauth ha)
    holds := fun u hu hp => by
      have := le_sum_map hu SetupState.holds
      omega
    locked := fun hl => by simp [hdb] at hl
    unlocked := fun _ => by rw [hdb]
    oneHolds := by omega
    oneInstalled := hsame ▸ h.oneInstalled
    installed := fun hp => howner.mpr (h.installed (hsame ▸ hp))
    first := mem_set h.first hfirst }

end Guarded

theorem settingsLocked_of_run {B : AccountBackend} {now : Timestamp} {d d' : Accounts} {w : Write}
    {r : w.Reply} (hrun : w.run B now d = .ok (r, d')) (hw : w.setsUp = false) :
    d'.settingsLocked = d.settingsLocked := by
  cases htouch : w.touchesLocks with
  | false => exact (Write.frame hrun).settingsLocked htouch
  | true =>
    cases w with
    | acceptClaim token now =>
      obtain ⟨-, -, rfl⟩ := acceptClaim_eq_ok.mp hrun
      rfl
    | acceptCommit token teamId userId role now =>
      obtain ⟨joined, hjoin, rfl⟩ := acceptCommit_eq_ok.mp hrun
      obtain ⟨_, rfl⟩ := join_frame hjoin
      rfl
    | acceptRollback token =>
      cases hrun
      rfl
    | setupLock => cases hw
    | setupInsert new => cases hw
    | setupRollback => cases hw
    | _ => cases htouch

theorem holdsAfter_error {n : ℕ} {w : Write} {e : Error} :
    holdsAfter n ⟨s, .write w, .error e, s'⟩ ≤ n := by
  cases w <;> first | exact le_rfl | exact Nat.zero_le n

theorem holdsAfter_of_not_setsUp {n : ℕ} {w : Write} {a : Except Error w.Reply}
    (hw : w.setsUp = false) : holdsAfter n ⟨s, .write w, a, s'⟩ = n := by
  cases w <;> first | rfl | cases hw

theorem installs_error {w : Write} {e : Error} :
    Installs ⟨s, .write w, .error e, s'⟩ = false := by
  cases w with
  | createAccount new initialOwner => cases initialOwner <;> rfl
  | _ => rfl

theorem installs_of_not_setsUp {w : Write} {a : Except Error w.Reply} (hw : w.setsUp = false) :
    Installs ⟨s, .write w, a, s'⟩ = false := by
  cases w with
  | createAccount new initialOwner =>
    cases initialOwner with
    | false => rfl
    | true => cases hw
  | setupInsert new => cases hw
  | _ => rfl

theorem not_readsOwner_write {w : Write} {a : Except Error w.Reply} :
    ¬ ReadsOwner ⟨s, .write w, a, s'⟩ := id

theorem hasOwner_of_readsOwner {q : Query} {fault : Option Error}
    (h : ReadsOwner (H.machine.transition (.query q) fault s)) : s.db.HasOwner := by
  cases fault with
  | some e => cases q <;> exact h.elim
  | none =>
    cases q with
    | findUserById id =>
      obtain ⟨u, hu, hrole⟩ := h
      exact ⟨u, (userById_mem hu).1, hrole⟩
    | _ => exact h.elim

theorem Guarded.write (h : Guarded app s₀ s ts) (hi : ts[i]? = some t) {w : Write} {r : w.Reply}
    {d : Accounts} (hmay : MayWrite app t w) (hrun : w.run H.backend s.clock s.db = .ok (r, d)) :
    Guarded app s₀ { s with db := d } (ts.set i ((ownerProtocol app s₀).next t
      ⟨s, .write w, .ok r, { s with db := d }⟩)) := by
  have hmem := List.mem_of_getElem? hi
  have hcons := h.consistent.run hrun
  have hkeep : s.db.HasOwner → d.HasOwner := HasOwner.run h.consistent hrun
  have hauth : t.authorized ∨ ReadsOwner ⟨s, .write w, .ok r, { s with db := d }⟩ →
      s.db.HasOwner := by
    rintro (ha | ha)
    · exact h.authorized t hmem ha
    · exact absurd ha not_readsOwner_write
  have hstart : ¬ s.db.HasOwner → ¬ s₀.db.HasOwner := mt h.start
  cases hw : w.setsUp with
  | false =>
    have hinstalls : Installs ⟨s, .write w, .ok r, { s with db := d }⟩ = false :=
      installs_of_not_setsUp hw
    have hlocked := settingsLocked_of_run hrun hw
    refine (h.state hcons hkeep hlocked ?_).set hi (fun ha => hkeep (hauth ha))
      (holdsAfter_of_not_setsUp hw).le ?_ ?_
    · intro hl ho
      by_cases hmints : w.Mints
      · cases w with
        | createAccount new initialOwner =>
          cases initialOwner with
          | false => exact absurd hmints hmay
          | true => cases hw
        | setInstanceRole id role =>
          rcases hmay hmints with ha | ha
          · exact h.authorized t hmem ha
          · simp [h.unlocked (.inl ha)] at hl
        | setupInsert new => cases hw
        | _ => exact hmints.elim
      · exact hasOwner_of_run hrun hmints ho
    · simp [ownerProtocol, hinstalls]
    · simp [ownerProtocol, hinstalls, h.first t hmem]
  | true =>
    cases w with
    | createAccount new initialOwner =>
      cases initialOwner with
      | false => cases hw
      | true =>
        obtain ⟨-, hsqlite, hrole⟩ := hmay
        obtain ⟨hnone, -, -, rfl⟩ := createAccount_eq_ok.mp hrun
        simp only [true_and, countOwners_pos] at hnone
        have hfree := h.unlocked (.inr hsqlite)
        have hzero : ∀ u ∈ ts, u.holds = 0 := fun u hu => by
          by_contra hpos
          exact absurd (h.holds u hu (Nat.pos_of_ne_zero hpos)) (by simp [hfree])
        have hsum : (ts.map SetupState.holds).sum = 0 := by
          rw [List.sum_eq_zero_iff_forall_eq_nat]
          intro n hn
          obtain ⟨u, hu, rfl⟩ := List.mem_map.mp hn
          exact hzero u hu
        refine h.install hi hcons hnone ⟨_, List.mem_append_right _ (List.mem_singleton_self _), hrole⟩
          hfree (by rw [hsum, hzero t hmem]) (hzero t hmem) rfl ?_
        exact ⟨h.first t hmem, fun _ => ⟨hstart hnone, hnone⟩⟩
    | setupLock =>
      obtain ⟨hfree, hnone, rfl⟩ := setupLock_eq_ok.mp hrun
      have hnone : ¬ s.db.HasOwner := by
        rw [← countOwners_pos]
        omega
      refine h.lock hi hmay hfree hnone rfl hauth rfl rfl ?_
      exact ⟨h.first t hmem, fun hf => by cases hf⟩
    | setupInsert new =>
      obtain ⟨-, -, rfl⟩ := setupInsert_eq_ok.mp hrun
      have hnone := h.locked (h.holds t hmem (by rw [hmay.1]; exact Nat.one_pos))
      have hone := h.oneHolds
      have hle := le_sum_map hmem SetupState.holds
      refine h.install hi hcons hnone
        ⟨_, List.mem_append_right _ (List.mem_singleton_self _), hmay.2⟩ rfl
        (by rw [hmay.1] at hle ⊢; omega) rfl rfl ?_
      exact ⟨h.first t hmem, fun _ => ⟨hstart hnone, hnone⟩⟩
    | setupRollback =>
      cases hrun
      refine h.unlock hi hmay rfl hauth rfl rfl ?_
      exact ⟨h.first t hmem, fun hf => by cases hf⟩
    | _ => cases hw

/-- What others may call: no sync, and nothing that makes an owner. -/
def Bystander : AuthCall → Prop := Writes fun w => ¬ w.Mints ∧ w.setsUp = false

theorem Guarded.bystander {c : AuthCall} (hc : Bystander c) (h : Guarded app s₀ s ts) :
    Guarded app s₀ (H.machine.step c s).2 ts := by
  have hsame : ∀ {s' : Server}, s'.db = s.db → Guarded app s₀ s' ts := fun hdb =>
    h.state (hdb ▸ h.consistent) (fun ho => hdb ▸ ho) (by rw [hdb]) fun _ ho => hdb ▸ ho
  cases c with
  | query q => exact hsame rfl
  | guard k => exact hsame rfl
  | write w =>
    rw [Host.machine_write]
    rcases Host.runWrite_state (H := H) w s with hs | ⟨r, d, hrun, hs⟩
    · rwa [hs]
    · rw [hs]
      exact h.state (h.consistent.run hrun) (HasOwner.run h.consistent hrun)
        (settingsLocked_of_run hrun hc.2) fun _ => hasOwner_of_run hrun hc.1
  | reconcileUser userId groups occasion => exact hc.elim
  | advance elapsed clock => exact hsame rfl

theorem guarded_keeps : (ownerProtocol app s₀).Keeps H.machine (Guarded app s₀) := by
  intro s ts i t c fault hi hmay h
  have hmem := List.mem_of_getElem? hi
  have hsame : ∀ {e : Transition authCalls Error Server} {s' : Server}, s'.db = s.db →
      (ReadsOwner e → s.db.HasOwner) → holdsAfter t.holds e ≤ t.holds → Installs e = false →
      Guarded app s₀ s' (ts.set i ((ownerProtocol app s₀).next t e)) := by
    intro e s' hdb hreads hholds hinstalls
    refine (h.state (hdb ▸ h.consistent) (fun ho => hdb ▸ ho) (by rw [hdb])
      (fun _ ho => hdb ▸ ho)).set hi ?_ hholds ?_ ?_
    · rintro (ha | ha)
      · exact hdb ▸ h.authorized t hmem ha
      · exact hdb ▸ hreads ha
    · simp [ownerProtocol, hinstalls]
    · simp [ownerProtocol, hinstalls, h.first t hmem]
  cases c with
  | query q =>
    refine hsame ?_ hasOwner_of_readsOwner le_rfl rfl
    cases fault <;> rfl
  | guard k =>
    refine hsame ?_ False.elim le_rfl rfl
    cases fault <;> rfl
  | write w =>
    rcases hans : H.machine.answer (.write w) fault s with ⟨e | r, s'⟩
    · obtain rfl := Host.answer_error rfl hans
      simp only [Machine.transition, hans]
      exact hsame rfl (fun hr => (not_readsOwner_write hr).elim) holdsAfter_error installs_error
    · cases fault with
      | some f => cases hans
      | none =>
        simp only [Machine.transition, hans]
        obtain ⟨d, hrun, rfl⟩ := Host.runWrite_eq_ok.mp hans
        exact h.write hi hmay hrun
  | reconcileUser userId groups occasion => exact hmay.elim
  | advance elapsed clock =>
    refine hsame ?_ False.elim le_rfl rfl
    cases fault <;> rfl

def CanMint (app : AppState) (t : SetupState) : Prop :=
  t.authorized ∨ app.adminUsers.isEmpty = false

def Neutral (w : Write) : Prop := ¬ w.Mints ∧ w.setsUp = false

theorem Neutral.mayWrite {w : Write} (h : Neutral w) : MayWrite app t w := by
  obtain ⟨hmints, hsetup⟩ := h
  cases w with
  | createAccount new initialOwner =>
    cases initialOwner with
    | false => exact hmints
    | true => cases hsetup
  | setInstanceRole id role => exact fun hrole => absurd hrole hmints
  | setupLock => cases hsetup
  | setupInsert new => cases hsetup
  | setupRollback => cases hsetup
  | _ => trivial

/-- Requests that make no owner lose nothing that they have learned. -/
theorem neutral_obeys {α : Type} {T : SetupState → Prop}
    (hT : ∀ t e, T t → T ((ownerProtocol app s₀).next t e)) {p : Prog authCalls Error α}
    (hp : p.Calls (Writes Neutral)) (ht : T t) :
    p.Obeys H.machine (ownerProtocol app s₀) (fun t _ => T t) t := by
  refine Prog.Obeys.of_calls (fun t c _ hc => ?_) (fun t c fault s ht _ => hT t _ ht) hp ht
  cases c with
  | write w => exact Neutral.mayWrite hc
  | reconcileUser userId groups occasion => exact hc
  | _ => trivial

theorem canMint_next (t : SetupState) (e : Transition authCalls Error Server) (h : CanMint app t) :
    CanMint app ((ownerProtocol app s₀).next t e) :=
  h.imp .inl id

theorem installed_next (t : SetupState) (e : Transition authCalls Error Server)
    (h : 0 < t.installed) : 0 < ((ownerProtocol app s₀).next t e).installed :=
  Nat.lt_of_lt_of_le h (Nat.le_add_right _ _)

theorem neutral_session (id : String) (userId : Id) (expiresAt : Timestamp) :
    Neutral (.createSession id userId expiresAt) :=
  ⟨fun h => h, rfl⟩

theorem neutral_member (new : NewUser) (h : new.instanceRole = .member) :
    Neutral (.createAccount new false) := by
  refine ⟨?_, rfl⟩
  change ¬ new.instanceRole = .owner
  simp [h]

theorem neutral_accepts (w : Write) (h : w.accepts = true) : Neutral w := by
  cases w <;> first | exact ⟨fun h => h, rfl⟩ | cases h

theorem authenticateUser_obeys (cookies : Option String) :
    (authenticateUser app cookies).Obeys H.machine (ownerProtocol app s₀)
      (fun t o => ∀ u, o = .ok u → u.instanceRole.isOwner = true → CanMint app t) t := by
  unfold authenticateUser
  split
  · exact nofun
  · refine Prog.Obeys.ask trivial (fun s session s' _ => ?_) fun _ _ _ _ _ => nofun
    split
    · exact nofun
    · refine Prog.Obeys.ask trivial (fun s user s' _ => ?_) fun _ _ _ _ _ => nofun
      split
      · exact nofun
      · rename_i row _
        cases hadmission : admission app row with
        | error e => exact nofun
        | ok admitted =>
          rintro _ ⟨⟩ howner
          obtain ⟨-, -, rfl⟩ := admission_eq_ok.mp hadmission
          rcases AdminUsers.apply_isOwner.mp howner with hrole | hadmin
          · exact .inl (.inr ⟨row, rfl, hrole⟩)
          · refine .inr ?_
            by_contra hempty
            simp [AdminUsers.contains_of_isEmpty (eq_true_of_ne_false hempty)] at hadmin

theorem createInitialOwner_obeys (happ : app.adminUsers.isEmpty = true) {new : NewUser}
    (hrole : new.instanceRole = .owner) :
    (app.dialect.repositories.createInitialOwner new).Obeys H.machine (ownerProtocol app s₀)
      (fun t o => ∀ u, o = .ok u → 0 < t.installed) t := by
  have hmust : mustBeOwner new = .ok () := by simp [mustBeOwner, hrole]
  cases hdialect : app.dialect with
  | sqlite =>
    simp only [Dialect.repositories, sqliteRepositories, hmust]
    exact Prog.Obeys.ask_last ⟨happ, hdialect, hrole⟩
      (fun s user s' _ => fun _ _ => Nat.succ_pos _) fun _ _ _ _ _ => nofun
  | postgres =>
    simp only [Dialect.repositories, pgRepositories, hmust]
    refine Prog.Obeys.ask ⟨happ, hdialect⟩ (fun s _ s' _ => ?_) fun _ _ _ _ _ => nofun
    refine orRollback_obeys (Prog.Obeys.ask_last ⟨rfl, hrole⟩ (fun s user s' _ => ?_) ?_)
    · exact fun _ _ => Nat.succ_pos _
    · exact fun _ _ _ _ _ => ⟨rfl, fun _ _ => nofun⟩

theorem requireSetup_isEmpty {u : Unit} (h : requireSetup app = .ok u) :
    app.adminUsers.isEmpty = true := by
  unfold requireSetup at h
  rw [ite_error_eq_ok, ite_error_eq_ok] at h
  simpa using h.2.1

theorem checkSetup_role {body : SetupRequest} {new : NewUser} {orgName : String}
    (h : checkSetup body = .ok (new, orgName)) : new.instanceRole = .owner := by
  simp only [checkSetup, bind_eq_ok] at h
  obtain ⟨email, -, _, -, displayName, -, _, -, h⟩ := h
  cases h
  rfl

theorem setup_obeys (body : SetupRequest) (drawn : Drawn) :
    (setup app body drawn).Obeys H.machine (ownerProtocol app s₀)
      (fun t o => ∀ r, o = .ok r → 0 < t.installed) t := by
  unfold setup
  cases hrequire : requireSetup app with
  | error e => exact nofun
  | ok _ =>
    refine Prog.Obeys.ask trivial (fun s owners s' _ => ?_) fun _ _ _ _ _ => nofun
    split
    · exact nofun
    · cases hcheck : checkSetup body with
      | error e => exact nofun
      | ok checked =>
        obtain ⟨new, orgName⟩ := checked
        refine Prog.Obeys.ask trivial (fun s passwordHash s' _ => ?_) fun _ _ _ _ _ => nofun
        have hnew : new.instanceRole = .owner := checkSetup_role hcheck
        have hrole : ({ new with passwordHash } : NewUser).instanceRole = .owner := hnew
        refine Prog.Obeys.result ((createInitialOwner_obeys (requireSetup_isEmpty hrequire)
          hrole).mono fun t o ho => ?_)
        cases o with
        | err e => exact nofun
        | panic => exact nofun
        | ok user =>
          have hrest : ∀ t : SetupState, 0 < t.installed →
              ((startSession drawn.sessionId user.id).bind fun _ => Prog.ret
                (Response.account 201 (.of user) (some drawn.sessionId))).Obeys H.machine
                (ownerProtocol app s₀) (fun t o => ∀ r, o = .ok r → 0 < t.installed) t := by
            intro t ht
            refine Prog.Obeys.bind ((neutral_obeys installed_next
              (startSession_calls neutral_session _ _) ht).mono fun t o ht => ?_)
            cases o with
            | ok a => exact fun _ _ => ht
            | err e => exact nofun
            | panic => exact nofun
          change (ite _ _ _ : Prog authCalls Error Response).Obeys _ _ _ _
          split
          · exact Prog.Obeys.ask trivial
              (fun _ _ _ _ => hrest _ (installed_next _ _ (ho user rfl))) fun _ _ _ _ _ => nofun
          · exact hrest _ (ho user rfl)

/-- What follows the calls of a request that makes no owner. -/
theorem Obeys.neutral_bind {α β : Type} {T : SetupState → Prop}
    (hT : ∀ t e, T t → T ((ownerProtocol app s₀).next t e)) {p : Prog authCalls Error α}
    (hp : p.Calls (Writes Neutral)) {f : α → Prog authCalls Error β}
    {Q : SetupState → Interaction.Outcome Error β → Prop} (hf : ∀ a t, T t →
      (f a).Obeys H.machine (ownerProtocol app s₀) Q t)
    (hQ : ∀ t e, Q t (.err e)) (hpanic : ∀ t, Q t .panic) (ht : T t) :
    (p.bind f).Obeys H.machine (ownerProtocol app s₀) Q t := by
  refine Prog.Obeys.bind ((neutral_obeys hT hp ht).mono fun t o ht => ?_)
  cases o with
  | ok a => exact hf a t ht
  | err e => exact hQ t e
  | panic => exact hpanic t

theorem targetUser_calls {may : Write → Prop} (id : Id) : (Api.targetUser id).Calls (Writes may) := by
  refine Prog.Calls.bind (get_calls _) fun found => ?_
  split <;> trivial

theorem requireAnotherOwner_calls {may : Write → Prop} (msg : String) (needed : Bool) :
    (Api.requireAnotherOwner msg needed).Calls (Writes may) := by
  unfold Api.requireAnotherOwner
  split
  · refine Prog.Calls.bind (get_calls _) fun owners => ?_
    split <;> trivial
  · trivial

theorem setUserRole_obeys (cookies : Option String) (id : Id) (role : InstanceRole) :
    (Api.setUserRole app cookies id role).Obeys H.machine (ownerProtocol app s₀)
      (fun _ _ => True) t := by
  have hrest : ∀ (admin : UserRow) (t : SetupState),
      (admin.instanceRole.isOwner = true → CanMint app t) →
      ((Api.targetUser id).bind fun target =>
        if app.adminUsers.contains target.email then
          Prog.fail (.forbidden "role is managed by ADMIN_USERS and cannot be changed")
        else if (target.instanceRole.isOwner || role.isOwner) && !admin.instanceRole.isOwner then
          Prog.fail (.forbidden "only an owner can grant or revoke the owner role")
        else (Api.requireAnotherOwner "cannot demote the last owner"
            (target.instanceRole.isOwner && !role.isOwner)).bind fun _ =>
          (put (.setInstanceRole id role)).bind fun updated =>
            Prog.ret (Response.adminUser (.withConfig app updated))).Obeys H.machine
        (ownerProtocol app s₀) (fun _ _ => True) t := by
    intro admin t hadmin
    have hmono : ∀ t e, (admin.instanceRole.isOwner = true → CanMint app t) →
        admin.instanceRole.isOwner = true → CanMint app ((ownerProtocol app s₀).next t e) :=
      fun t e h ho => canMint_next t e (h ho)
    refine Obeys.neutral_bind hmono (targetUser_calls id) (fun target t ht => ?_)
      (fun _ _ => trivial) (fun _ => trivial) hadmin
    split_ifs with hconfigured hforbidden
    · trivial
    · trivial
    · refine Obeys.neutral_bind hmono (requireAnotherOwner_calls _ _) (fun _ t ht => ?_)
        (fun _ _ => trivial) (fun _ => trivial) ht
      refine Prog.Obeys.ask (fun hrole => ht ?_) (fun _ _ _ _ => trivial) fun _ _ _ _ _ => trivial
      simpa [hrole, InstanceRole.isOwner] using hforbidden
  unfold Api.setUserRole adminUser
  refine Prog.Obeys.bind (Prog.Obeys.bind ((authenticateUser_obeys cookies).mono fun t o ho => ?_))
  cases o with
  | err e => trivial
  | panic => trivial
  | ok user =>
    change (ite _ _ _ : Prog authCalls Error UserRow).Obeys _ _ _ _
    split
    · exact hrest user t (ho user rfl)
    · trivial

theorem deleteUser_calls {may : Write → Prop} (cookies : Option String) (id : Id)
    (h : may (.deleteUser id)) : (Api.deleteUser app cookies id).Calls (Writes may) := by
  unfold Api.deleteUser
  refine Prog.Calls.bind (adminUser_calls _) fun admin => ?_
  split
  · trivial
  · refine Prog.Calls.bind (targetUser_calls _) fun target => ?_
    split
    · trivial
    · refine Prog.Calls.bind (requireAnotherOwner_calls _ _) fun _ => ?_
      refine Prog.Calls.bind (put_calls h) fun _ => ?_
      trivial

theorem convertToSso_calls {may : Write → Prop} (id : Id) (h : may (.convertToSso id)) :
    (convertToSso id).Calls (Writes may) := by
  refine Prog.Calls.bind (put_calls h) fun _ => ?_
  refine Prog.Calls.bind (get_calls _) fun found => ?_
  split <;> trivial

def Settles (t : SetupState) (o : Interaction.Outcome Error AccountOp) : Prop :=
  ∀ body drawn, o = .ok (.setup body drawn) → 0 < t.installed

theorem AccountOp.obeys (op : AccountOp) :
    (op.prog app).Obeys H.machine (ownerProtocol app s₀) Settles t := by
  have hneutral : ∀ {α : Type} {p : Prog authCalls Error α}, p.Calls (Writes Neutral) →
      (∀ body drawn, op ≠ .setup body drawn) →
      (p.bind fun _ => Prog.ret op).Obeys H.machine (ownerProtocol app s₀) Settles t :=
    fun hp hop => Obeys.neutral_bind (T := fun _ => True) (fun _ _ _ => trivial) hp
      (fun _ _ _ body drawn ho => absurd (Interaction.Outcome.ok.inj ho) (hop body drawn)) (fun _ _ => nofun)
      (fun _ => nofun) trivial
  cases op with
  | setup body drawn =>
    refine Prog.Obeys.bind ((setup_obeys body drawn).mono fun t o ho => ?_)
    cases o with
    | ok r => exact fun _ _ _ => ho r rfl
    | err e => exact nofun
    | panic => exact nofun
  | register body drawn => exact hneutral (register_calls neutral_session neutral_member _ _) nofun
  | provision email displayName status =>
    exact hneutral (put_calls (neutral_member _ rfl)) nofun
  | setUserRole cookies id role =>
    refine Prog.Obeys.bind ((setUserRole_obeys cookies id role).mono fun t o _ => ?_)
    cases o <;> exact nofun
  | deleteUser cookies id => exact hneutral (deleteUser_calls _ _ ⟨fun h => h, rfl⟩) nofun
  | convertToSso id => exact hneutral (convertToSso_calls _ ⟨fun h => h, rfl⟩) nofun
  | acceptInvite cookies token ip req drawn =>
    exact hneutral (acceptInvite_calls neutral_session neutral_member neutral_accepts _ _ _ _ _) nofun

theorem ownerProtocol_after (h : List (Transition authCalls Error Server)) :
    ((ownerProtocol app s₀).after t h).installed = t.installed + h.countP Installs ∧
      (((ownerProtocol app s₀).after t h).first ↔ t.first ∧ ∀ e ∈ h, Installs e = true →
        ¬ s₀.db.HasOwner ∧ ¬ e.before.db.HasOwner) := by
  induction h generalizing t with
  | nil => simp
  | cons e h ih =>
    refine ⟨ih.1.trans ?_, ih.2.trans ?_⟩
    · rw [List.countP_cons, Nat.add_comm (List.countP Installs h), ← Nat.add_assoc]
      rfl
    · rw [List.forall_mem_cons, ← and_assoc]
      rfl

def installs (p : Pool authCalls Error Server AccountOp) : ℕ :=
  (p.threads.map fun th => th.history.countP Installs).sum

/-- In every interleaving of the requests with each other and with calls that make no owner: an
instance that has an owner keeps one; at most one setup inserts an owner, every setup that succeeds
does, and it finds none there. -/
theorem instance_keeps_owner (H : Host) (app : AppState) (ops : List AccountOp) (s : Server)
    (hs : s.db.Consistent) (hfree : s.db.settingsLocked = false)
    (turns later : List (Turn authCalls Error)) (hturns : ∀ c, Turn.other c ∈ turns → Bystander c)
    (hlater : ∀ c, Turn.other c ∈ later → Bystander c) :
    let p := (Pool.start (ops.map (AccountOp.prog app)) s).run H.machine turns
    (p.state.db.HasOwner → (p.run H.machine later).state.db.HasOwner) ∧
      installs p ≤ 1 ∧
      (∀ th ∈ p.threads, ∀ e ∈ th.history, Installs e = true →
        ¬ s.db.HasOwner ∧ ¬ e.before.db.HasOwner) ∧
      ∀ th ∈ p.threads, ∀ body drawn, th.rest = .ret (.setup body drawn) →
        0 < th.history.countP Installs := by
  intro p
  have hprogs : ∀ q ∈ ops.map (AccountOp.prog app),
      q.Obeys H.machine (ownerProtocol app s) Settles .start := by
    intro q hq
    obtain ⟨op, -, rfl⟩ := List.mem_map.mp hq
    exact op.obeys
  have hstart : Guarded app s s (List.replicate (ops.map (AccountOp.prog app)).length .start) := {
    consistent := hs
    start := id
    authorized := fun t ht => by rw [List.eq_of_mem_replicate ht]; exact False.elim
    holds := fun t ht => by rw [List.eq_of_mem_replicate ht]; exact nofun
    locked := fun h => by simp [hfree] at h
    unlocked := fun _ => hfree
    oneHolds := by simp [SetupState.start]
    oneInstalled := by simp [SetupState.start]
    installed := by simp [SetupState.start]
    first := fun t ht => by rw [List.eq_of_mem_replicate ht]; trivial }
  obtain ⟨hobeys, hinv⟩ := Pool.Obeys.run_start guarded_keeps
    (fun _ _ _ hc h => h.bystander hc) hprogs hstart hturns
  have hlocal : ∀ th ∈ p.threads, ∀ R : SetupState → Prop,
      (∀ t ∈ p.locals (ownerProtocol app s) .start, R t) →
        R ((ownerProtocol app s).after .start th.history) :=
    fun th hth R hR => hR _ (List.mem_map.mpr ⟨th, hth, rfl⟩)
  refine ⟨fun howner => ?_, ?_, ?_, ?_⟩
  · have hkeeps : ∀ (w : Write) (r : w.Reply) (now : Timestamp) (d d' : Accounts),
        w.run H.backend now d = .ok (r, d') → d.Consistent ∧ d.HasOwner →
          d'.Consistent ∧ d'.HasOwner :=
      fun w r now d d' hrun hd => ⟨hd.1.run hrun, HasOwner.run hd.1 hrun hd.2⟩
    exact (hobeys.run (J := fun s _ => s.db.Consistent ∧ s.db.HasOwner)
      (fun _ _ _ _ _ fault _ hc h => Host.answer_db hkeeps (Writes.isSync hc) fault h)
      (fun _ _ _ hc h => Host.step_db hkeeps (Writes.isSync hc) h)
      ⟨hinv.consistent, howner⟩ hlater).2.2
  · have hsum : (p.locals (ownerProtocol app s) .start).map SetupState.installed =
        p.threads.map fun th => th.history.countP Installs := by
      rw [Pool.locals, List.map_map]
      refine List.map_congr_left fun th _ => ?_
      rw [Function.comp_apply, (ownerProtocol_after th.history).1]
      exact Nat.zero_add _
    rw [installs, ← hsum]
    exact hinv.oneInstalled
  · intro th hth
    exact ((ownerProtocol_after th.history).2.mp (hlocal th hth _ hinv.first)).2
  · intro th hth body drawn hrest
    have hend := hobeys th hth
    rw [hrest] at hend
    have hpos := hend body drawn rfl
    rwa [(ownerProtocol_after th.history).1, SetupState.start, Nat.zero_add] at hpos

def twoSetups : List AccountOp :=
  [.setup ⟨"ann@a.b", "password", "Ann", "Org"⟩ ⟨"s1", "1"⟩,
    .setup ⟨"bob@a.b", "password", "Bob", "Org"⟩ ⟨"s2", "2"⟩]

/-- Both find no owner and go on, call by call together, to their ends. -/
def setupTurns : List (Turn authCalls Error) :=
  (List.replicate 12 [.thread 0 none, .thread 1 none]).flatten

theorem other_not_mem_setupTurns (c : AuthCall) : Turn.other c ∉ setupTurns := by
  simp [setupTurns]

theorem instance_keeps_owner_of_two : installs ((Pool.start (twoSetups.map
      (AccountOp.prog (.plain .postgres))) Server.new).run Host.plain.machine setupTurns) ≤ 1 :=
  (instance_keeps_owner .plain (.plain .postgres) twoSetups .new .new rfl setupTurns []
    (fun c hc => absurd hc (other_not_mem_setupTurns c)) (by simp)).2.1

end Soika.Auth
