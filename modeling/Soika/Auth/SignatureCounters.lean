import Soika.Adapters.AccountsFrame
import Soika.Auth.Ceremonies

/-! # Signature counters

A login reads the stored credential, verifies the assertion against it and writes it back with
the assertion's counter. A clone is found out by a counter that does not grow, as long as no
login writes its credential over one with a larger counter.
-/

namespace Soika.Auth

open Interaction

structure Counters (W : Webauthn) where
  asserted : W.Assertion → ℕ
  stored : W.Credential → ℕ

/-- An assertion is refused whose counter is not greater than the stored one, unless both are zero, and
the updated credential has its counter. -/
structure Counters.Lawful {W : Webauthn} (C : Counters W) : Prop where
  refuses : ∀ credential state key result,
    W.finishAuthentication credential state key = .ok result →
      C.asserted credential = 0 ∧ C.stored key = 0 ∨ C.stored key < C.asserted credential
  updates : ∀ credential state key result,
    W.finishAuthentication credential state key = .ok result →
      C.stored (W.updateCredential key result) = C.asserted credential

variable {app : AppState} {W : Webauthn} {H : Host} {C : Counters W}

def HoldsAtLeast (C : Counters W) (n : ℕ) (row : PasskeyRow) : Prop :=
  ∃ key, W.credential.fromStr row.credential = .ok key ∧ n ≤ C.stored key

/-- The turn does not write a credential over one with a larger counter. -/
def NoRegression (C : Counters W) (p : PasskeyPool W) (turn : Turn authCalls Error) : Prop :=
  ∀ id text usedAt, turn.fault = none →
    p.calling turn = some (.write (.touchPasskey id text usedAt)) →
      ∀ row ∈ p.state.db.passkeys, row.id = id → ∀ old new,
        W.credential.fromStr row.credential = .ok old → W.credential.fromStr text = .ok new →
          C.stored old ≤ C.stored new

def PasskeyWrite : AuthCall → Bool
  | .write (.createPasskey _) => true
  | .write (.touchPasskey _ _ _) => true
  | _ => false

/-- Every row comes from one of the first, with its id and its credential id. -/
def Descends (d₀ d : Accounts) : Prop :=
  ∀ row ∈ d.passkeys, ∃ row₀ ∈ d₀.passkeys, row₀.id = row.id ∧ row₀.credentialId = row.credentialId

theorem Descends.refl (d : Accounts) : Descends d d := fun row hrow => ⟨row, hrow, rfl, rfl⟩

def RowsOf (id : Id) (Q : PasskeyRow → Prop) (d : Accounts) : Prop :=
  ∀ row ∈ d.passkeys, row.id = id → Q row

theorem mem_touchPasskey {B : AccountBackend} {d : Accounts} {id : Id} {text : String}
    {usedAt : Timestamp} {row : PasskeyRow} (h : row ∈ (d.touchPasskey B id text usedAt).passkeys) :
    ∃ before ∈ d.passkeys, row.id = before.id ∧ row.credentialId = before.credentialId ∧
      row.userId = before.userId ∧
      (if before.id = id then row.credential = text else row = before) := by
  obtain ⟨before, hmem, hrow⟩ := Table.mem_modify.mp h
  refine ⟨before, hmem, ?_⟩
  split at hrow
  · rename_i hid
    rw [if_pos hid]
    subst hrow
    exact ⟨rfl, rfl, rfl, rfl⟩
  · rename_i hid
    rw [if_neg hid]
    subst hrow
    exact ⟨rfl, rfl, rfl, rfl⟩

theorem registrationCookie_ne : passkeyRegistrationCookie ≠ passkeyAuthenticationCookie := by decide

section Turns

variable {requests : List (PasskeyRequest W)} {p : PasskeyPool W} {turn : Turn authCalls Error}

def Sounds (app : AppState) (H : Host) (requests : List (PasskeyRequest W)) (p : PasskeyPool W) :
    Prop :=
  List.Forall₂ (fun req th => th.Sound H.machine (fun _ => True) (req.prog app W)) requests p.threads

theorem Sounds.start (s : Server) :
    Sounds app H requests (Pool.start (requests.map fun req => req.prog app W) s) :=
  List.forall₂_map_left_iff.mp (Pool.start_sound _ s)

theorem Sounds.after_turn (h : Sounds app H requests p) :
    Sounds app H requests (p.turn H.machine turn) :=
  List.forall₂_map_left_iff.mp (Pool.run_sound (I := fun _ => True) (fun _ _ _ => trivial) trivial
    (List.forall₂_map_left_iff.mpr h) [turn]).2

theorem Sounds.run (h : Sounds app H requests p) (turns : List (Turn authCalls Error)) :
    Sounds app H requests (p.run H.machine turns) := by
  induction turns generalizing p with
  | nil => exact h
  | cons turn turns ih => exact ih h.after_turn

/-- The call that a thread is about to make comes after what it presupposes. -/
theorem Sounds.may (h : Sounds app H requests p) {i : ℕ} {history : AuthHistory} {c : AuthCall}
    {next : Except Error (authCalls.Reply c) → Prog authCalls Error (PasskeyResponse W)}
    (hi : p.threads[i]? = some ⟨.call c next, history⟩) : ∃ req ∈ requests, req.May app history c := by
  obtain ⟨req, hreq, hth⟩ := exists_of_forall₂_mem h (List.mem_of_getElem? hi)
  have hobeys := hth.obeys (PasskeyRequest.prog_follows app H req)
  rw [Protocol.after_recording, List.nil_append] at hobeys
  exact ⟨req, hreq, hobeys.1⟩

/-- What a turn does to the passkeys when nobody registers one: some may be gone, or one is updated
with a credential that can be read. -/
theorem passkeys_turn (hcodec : W.credential.Lawful)
    (hlogins : ∀ req ∈ requests, req.purpose = passkeyAuthenticationCookie)
    (hother : ∀ c, turn = .other c → PasskeyWrite c = false) (h : Sounds app H requests p) :
    (p.turn H.machine turn).state.db.passkeys.Sublist p.state.db.passkeys ∨
      ∃ id text usedAt new, turn.fault = none ∧
        p.calling turn = some (.write (.touchPasskey id text usedAt)) ∧
        W.credential.fromStr text = .ok new ∧
        (p.turn H.machine turn).state.db = p.state.db.touchPasskey H.backend id text usedAt := by
  rcases p.turn_cases H.machine turn with hsame | ⟨c, rfl, hsame⟩ |
    ⟨i, fault, history, c, next, rfl, hi, hcalling, hsame⟩
  · rw [hsame]
    exact .inl (List.Sublist.refl _)
  · have hc := hother c rfl
    rw [hsame]
    rcases Host.passkeys_cases (H := H) c none p.state with ⟨new, id, -, rfl, -⟩ |
      ⟨id, text, usedAt, -, rfl, -⟩ | hsub
    · cases hc
    · cases hc
    · exact .inl hsub
  · obtain ⟨req, hreq, hmay⟩ := h.may hi
    rw [hsame]
    rcases Host.passkeys_cases (H := H) c fault p.state with ⟨new, id, -, rfl, -⟩ |
      ⟨id, text, usedAt, rfl, rfl, hdb⟩ | hsub
    · cases req with
      | register cookies name credential => exact absurd (hlogins _ hreq) registrationCookie_ne
      | _ => exact hmay.elim
    · cases req with
      | login ip cookies credential sessionId =>
        obtain ⟨state, stored, verified, result, -, -, htext⟩ := hmay
        exact .inr ⟨id, text, usedAt, _, rfl, hcalling, hcodec _ _ htext, hdb⟩
      | _ => exact hmay.elim
    · exact .inl hsub

/-- A turn that does not write back an older credential keeps the counters of an id. -/
theorem rowsOf_turn (hcodec : W.credential.Lawful)
    (hlogins : ∀ req ∈ requests, req.purpose = passkeyAuthenticationCookie)
    (hother : ∀ c, turn = .other c → PasskeyWrite c = false) (h : Sounds app H requests p)
    (hturn : NoRegression C p turn) {id : Id} {n : ℕ}
    (hrows : RowsOf id (HoldsAtLeast C n) p.state.db) :
    RowsOf id (HoldsAtLeast C n) (p.turn H.machine turn).state.db := by
  rcases passkeys_turn hcodec hlogins hother h with hsub |
    ⟨touched, text, usedAt, new, hfault, hcalling, hnew, hdb⟩
  · exact fun row hrow => hrows row (hsub.subset hrow)
  · intro row hrow hid
    rw [hdb] at hrow
    obtain ⟨before, hbefore, hsame, -, -, hcredential⟩ := mem_touchPasskey hrow
    obtain ⟨old, hold, hle⟩ := hrows before hbefore (hsame.symm.trans hid)
    split at hcredential
    · rename_i htouched
      refine ⟨new, hcredential.symm ▸ hnew, hle.trans ?_⟩
      exact hturn touched text usedAt hfault hcalling before hbefore htouched old new hold hnew
    · subst hcredential
      exact ⟨old, hold, hle⟩

theorem descends_turn (hcodec : W.credential.Lawful)
    (hlogins : ∀ req ∈ requests, req.purpose = passkeyAuthenticationCookie)
    (hother : ∀ c, turn = .other c → PasskeyWrite c = false) (h : Sounds app H requests p)
    {d₀ : Accounts} (hdescends : Descends d₀ p.state.db) :
    Descends d₀ (p.turn H.machine turn).state.db := by
  rcases passkeys_turn hcodec hlogins hother h with hsub | ⟨touched, text, usedAt, new, -, -, -, hdb⟩
  · exact fun row hrow => hdescends row (hsub.subset hrow)
  · intro row hrow
    rw [hdb] at hrow
    obtain ⟨before, hbefore, hid, hcredentialId, -, -⟩ := mem_touchPasskey hrow
    rw [hid, hcredentialId]
    exact hdescends before hbefore

/-- Every credential that was written back is still there with its counter, or gone. -/
def Kept (C : Counters W) (p : PasskeyPool W) : Prop :=
  ∀ (before after : Server) id text usedAt new,
    ⟨before, .write (.touchPasskey id text usedAt), .ok (), after⟩ ∈ p.events →
      W.credential.fromStr text = .ok new → RowsOf id (HoldsAtLeast C (C.stored new)) p.state.db

theorem kept_turn (hcodec : W.credential.Lawful)
    (hlogins : ∀ req ∈ requests, req.purpose = passkeyAuthenticationCookie)
    (hother : ∀ c, turn = .other c → PasskeyWrite c = false) (h : Sounds app H requests p)
    (hturn : NoRegression C p turn) (hkept : Kept C p) : Kept C (p.turn H.machine turn) := by
  intro before after id text usedAt new he hnew
  by_cases hold : ⟨before, .write (.touchPasskey id text usedAt), .ok (), after⟩ ∈ p.events
  · exact rowsOf_turn hcodec hlogins hother h hturn (hkept before after id text usedAt new hold hnew)
  · rcases p.turn_cases H.machine turn with hsame | ⟨c, -, hsame⟩ |
      ⟨i, fault, history, c, next, -, hi, -, hsame⟩
    · exact absurd (hsame ▸ he) hold
    · rw [hsame] at he
      exact absurd he hold
    · rw [hsame, (Pool.stepped_events hi fault).mem_iff, List.mem_append] at he
      have hlast := List.mem_singleton.mp (he.resolve_left hold)
      rw [Machine.transition] at hlast
      cases fault with
      | some e => cases hlast
      | none =>
        cases c with
        | write w =>
          cases w with
          | touchPasskey id' text' usedAt' =>
            cases hlast
            rw [hsame]
            intro row hrow hid
            obtain ⟨before, hbefore, hid', -, -, hcredential⟩ := mem_touchPasskey hrow
            rw [if_pos (hid'.symm.trans hid)] at hcredential
            exact ⟨new, hcredential.symm ▸ hnew, Nat.le_refl _⟩
          | _ => cases hlast
        | _ => cases hlast

end Turns

/-- A login of the credential has been completed with that assertion. -/
def LoggedIn (requests : List (PasskeyRequest W)) (p : PasskeyPool W) (i : ℕ)
    (credential : W.Assertion) : Prop :=
  ∃ ip cookies sessionId th user session,
    requests[i]? = some (.login ip cookies credential sessionId) ∧ p.threads[i]? = some th ∧
      th.rest = .ret (.signedIn user session)

/-- The request in this place has made no call yet. -/
def NotBegun (p : PasskeyPool W) (j : ℕ) : Prop :=
  ∀ th, p.threads[j]? = some th → th.history = []

section Runs

variable {requests : List (PasskeyRequest W)} {p : PasskeyPool W}

theorem LoggedIn.history (hsounds : Sounds app H requests p) {i : ℕ} {credential : W.Assertion}
    (hi : LoggedIn requests p i credential) :
    ∃ th state stored verified result text usedAt, p.threads[i]? = some th ∧
      (∀ e ∈ th.history, e.Sound H.machine) ∧
      Asserted app W credential state th.history stored verified result ∧
      W.credential.toStr (W.updateCredential verified result) = .ok text ∧
      Answered th.history (.write (.touchPasskey stored.id text usedAt)) () := by
  obtain ⟨ip, cookies, sessionId, th, user, session, hreq, hth, hrest⟩ := hi
  have hsound := forall₂_getElem? hsounds hreq hth
  have hcompletes : (PasskeyRequest.login ip cookies credential sessionId).Completes app th.history :=
    PasskeyRequest.verdict_of_sound hsound (.inl ⟨_, hrest, rfl⟩)
  obtain ⟨handle, payload, stored, verified, result, -, -, hasserted, text, now, htext, htouch⟩ :=
    hcompletes
  exact ⟨th, payload.state, stored, verified, result, text, now, hth,
    fun e he => (hsound.calls e he).2, hasserted, htext, htouch⟩

theorem Asserted.row {credential : W.Assertion} {state : W.Authentication} {h : AuthHistory}
    {stored : PasskeyRow} {verified : W.Credential} {result : W.AuthenticationResult}
    (ha : Asserted app W credential state h stored verified result)
    (hsound : ∀ e ∈ h, e.Sound H.machine) :
    ∃ userId credentialId, W.identify credential = .ok (userId, credentialId) ∧
      stored.credentialId = app.signing.encode credentialId ∧
      ∃ e ∈ h, stored ∈ e.before.db.passkeys := by
  obtain ⟨userId, credentialId, hidentify, ⟨before, after, hmem⟩, -⟩ := ha.found
  obtain ⟨fault, hanswer⟩ := hsound _ hmem
  cases fault with
  | some e => cases hanswer
  | none =>
    have hlookup : before.db.passkeyByCredentialId (app.signing.encode credentialId) = some stored :=
      Except.ok.inj (congrArg Prod.fst hanswer)
    obtain ⟨hrow, hid⟩ := Table.lookup_eq_some_mem hlookup
    exact ⟨userId, credentialId, hidentify, hid, _, hmem, hrow⟩

/-- The conditions on a turn. -/
def Cautious (C : Counters W) (p : PasskeyPool W) (turn : Turn authCalls Error) : Prop :=
  NoRegression C p turn ∧ ∀ c, turn = .other c → PasskeyWrite c = false

/--
A cloned authenticator is found out in every run in which no login writes its credential over one
with a larger counter: once an assertion with a counter above zero has completed a login, no login
that begins later completes with a counter that is not greater.
-/
theorem clone_detected (hcodec : W.credential.Lawful) (hC : C.Lawful)
    (hlogins : ∀ req ∈ requests, req.purpose = passkeyAuthenticationCookie) {s : Server}
    (hunique : Table.UniqueOn PasskeyRow.credentialId s.db.passkeys)
    {turns₁ turns₂ : List (Turn authCalls Error)}
    (h₁ : Pool.Along H.machine (Cautious C) turns₁
      (Pool.start (requests.map fun req => req.prog app W) s))
    (h₂ : Pool.Along H.machine (Cautious C) turns₂ (passkeyRun app H requests s turns₁))
    {i j : ℕ} {a b : W.Assertion} (ha : LoggedIn requests (passkeyRun app H requests s turns₁) i a)
    (hpositive : 0 < C.asserted a) (hj : NotBegun (passkeyRun app H requests s turns₁) j)
    (hb : LoggedIn requests ((passkeyRun app H requests s turns₁).run H.machine turns₂) j b)
    (hsame : (W.identify b).map Prod.snd = (W.identify a).map Prod.snd) :
    C.asserted a < C.asserted b := by
  have hsounds : ∀ (p : PasskeyPool W) turn, Sounds app H requests p → Sounds app H requests
      (p.turn H.machine turn) := fun p turn h => h.after_turn
  have hsounds₁ : Sounds app H requests (passkeyRun app H requests s turns₁) :=
    (Sounds.start s).run turns₁
  have hfirst := h₁.and_keeps hsounds (Sounds.start s)
  have hsecond := h₂.and_keeps hsounds hsounds₁
  have hdescends₁ : Descends s.db (passkeyRun app H requests s turns₁).state.db :=
    hfirst.keeps (J := fun p => Descends s.db p.state.db)
      (fun p turn hC h => descends_turn hcodec hlogins hC.2.2 hC.1 h) (Descends.refl s.db)
  have hkept : Kept C (passkeyRun app H requests s turns₁) := by
    refine hfirst.keeps (fun p turn hC h => kept_turn hcodec hlogins hC.2.2 hC.1 hC.2.1 h) ?_
    intro before after id text usedAt new he
    rw [Pool.events_start] at he
    cases he
  -- The first login has left its counter in the row, which was there from the beginning.
  obtain ⟨th, state, stored, verified, result, text, usedAt, hth, hsound, hasserted, htext, htouch⟩ :=
    ha.history hsounds₁
  obtain ⟨userId, credentialId, hidentify, hcredentialId, e, he, hrow⟩ := hasserted.row hsound
  have hrows : RowsOf stored.id (HoldsAtLeast C (C.asserted a))
      (passkeyRun app H requests s turns₁).state.db := by
    obtain ⟨before, after, htouch⟩ := htouch
    rw [← hC.updates _ _ _ _ hasserted.finished]
    exact hkept before after stored.id text usedAt _
      (Pool.mem_events.mpr ⟨th, List.mem_of_getElem? hth, htouch⟩) (hcodec _ _ htext)
  have hbefore : Descends s.db e.before.db :=
    hfirst.befores (I := fun s' => Descends s.db s'.db)
      (fun p turn hC h => descends_turn hcodec hlogins hC.2.2 hC.1 h) (Descends.refl s.db)
      (fun th hth => Pool.start_history hth) th hth e he
  obtain ⟨row₀, hrow₀, hid₀, hkey₀⟩ := hbefore stored hrow
  -- What the second login finds is that row, with a counter at least as large.
  obtain ⟨th', state', stored', verified', result', text', usedAt', hth', hsound', hasserted', -, -⟩ :=
    hb.history (hsounds₁.run turns₂)
  obtain ⟨userId', credentialId', hidentify', hcredentialId', e', he', hrow'⟩ := hasserted'.row hsound'
  obtain ⟨hdescends', hrows'⟩ := hsecond.befores (I := fun s' => Descends s.db s'.db ∧
      RowsOf stored.id (HoldsAtLeast C (C.asserted a)) s'.db)
    (fun p turn hC h => ⟨descends_turn hcodec hlogins hC.2.2 hC.1 h.1,
      rowsOf_turn hcodec hlogins hC.2.2 hC.1 hC.2.1 h.2⟩) ⟨hdescends₁, hrows⟩ hj th' hth' e' he'
  obtain ⟨row₀', hrow₀', hid₀', hkey₀'⟩ := hdescends' stored' hrow'
  have hcredential : credentialId' = credentialId := by
    rw [hidentify, hidentify'] at hsame
    exact Except.ok.inj hsame
  have hid : stored'.id = stored.id := by
    rw [← hid₀, ← hid₀', hunique.eq_of_key hrow₀ hrow₀' ?_]
    rw [hkey₀, hkey₀', hcredentialId, hcredentialId', hcredential]
  obtain ⟨old, hold, hle⟩ := hrows' stored' hrow' hid
  obtain rfl : old = verified' :=
    Except.ok.inj (hold.symm.trans (mapError_eq_ok.mp hasserted'.parsed))
  rcases hC.refuses _ _ _ _ hasserted'.finished with ⟨-, hzero⟩ | hlt
  · omega
  · exact hle.trans_lt hlt

end Runs

def isSignedIn : Prog authCalls Error (PasskeyResponse W) → Bool
  | .ret (.signedIn _ _) => true
  | _ => false

theorem LoggedIn.of_isSignedIn {requests : List (PasskeyRequest W)} {p : PasskeyPool W} {i : ℕ}
    {ip : String} {cookies : Option String} {credential : W.Assertion} {sessionId : String}
    (hreq : requests[i]? = some (.login ip cookies credential sessionId))
    (h : (p.threads[i]?.any fun th => isSignedIn th.rest) = true) : LoggedIn requests p i credential := by
  cases hth : p.threads[i]? with
  | none =>
    rw [hth] at h
    cases h
  | some th =>
    rw [hth, Option.any_some] at h
    unfold isSignedIn at h
    split at h
    · rename_i user session hrest
      exact ⟨ip, cookies, sessionId, th, user, session, hreq, hth, hrest⟩
    · cases h

theorem NotBegun.of_isEmpty {p : PasskeyPool W} {j : ℕ}
    (h : (p.threads[j]?.all fun th => th.history.isEmpty) = true) : NotBegun p j := by
  intro th hth
  rw [hth] at h
  exact List.isEmpty_iff.mp h

def Counters.plain : Counters .plain where
  asserted assertion := assertion.counter
  stored key := key.counter

theorem Counters.plain_lawful : Counters.plain.Lawful where
  refuses credential state key result h := by
    simp only [Webauthn.plain] at h
    split at h
    · cases h
    · split at h
      · rename_i hcounter
        exact hcounter
      · cases h
  updates credential state key result h := by
    simp only [Webauthn.plain] at h
    split at h
    · cases h
    · split at h
      · cases h
        rfl
      · cases h

theorem plainCredential_lawful : plainCredential.Lawful := by
  refine Codec.ofNumbers_lawful fun key => ?_
  simp only [UInt8.ofNat_toNat]

def Server.withPasskey : Server :=
  { Server.new with
    db := { Accounts.new with
      users := [⟨0, "ann@example.com", "Ann", "hash", .member, .localAccount, .active⟩]
      passkeys := [⟨0, 0, Signing.spelled.encode ⟨#[1]⟩, "Passkey",
        (Webauthn.plain.credential.toStr (⟨1, 0⟩ : PlainCredential)).toOption.getD "", .epoch, none⟩]
      nextId := 1 } }

def cautious (C : Counters W) (p : PasskeyPool W) (turn : Turn authCalls Error) : Bool :=
  match turn, p.calling turn with
  | .other _, _ => false
  | _, some (.write (.touchPasskey id text _)) => p.state.db.passkeys.all fun row =>
    row.id ≠ id || match W.credential.fromStr row.credential, W.credential.fromStr text with
      | .ok old, .ok new => C.stored old ≤ C.stored new
      | _, _ => true
  | _, _ => true

theorem Cautious.of_cautious {p : PasskeyPool W} {turn : Turn authCalls Error}
    (h : cautious C p turn = true) : Cautious C p turn := by
  refine ⟨fun id text usedAt _ hcalling row hrow hid old new hold hnew => ?_, fun c hc => ?_⟩
  · cases turn with
    | other c => cases h
    | thread i fault =>
      simp only [cautious, hcalling, List.all_eq_true] at h
      simpa [hid, hold, hnew] using h row hrow
  · subst hc
    cases h

def twoCeremonies : List (PasskeyRequest .plain) :=
  [.loginOptions "192.0.2.1" none ⟨"a", 1, []⟩, .loginOptions "192.0.2.1" none ⟨"b", 2, []⟩,
    .login "192.0.2.1" (some "soika_passkey_auth=a") ⟨0, 1, 1, 5⟩ "first",
    .login "192.0.2.1" (some "soika_passkey_auth=b") ⟨0, 1, 2, 7⟩ "second"]

def firstOfTwo : List (Turn authCalls Error) :=
  ([0, 0, 0, 0, 1, 1, 1, 1] ++ List.replicate 11 2).map fun i => .thread i none

def secondOfTwo : List (Turn authCalls Error) := (List.replicate 11 3).map fun i => .thread i none

theorem clone_detected_twoCeremonies :
    Counters.plain.asserted ⟨0, 1, 1, 5⟩ < Counters.plain.asserted ⟨0, 1, 2, 7⟩ := by
  have hfirst : Pool.Along Host.plain.machine (Cautious Counters.plain) firstOfTwo
      (Pool.start (twoCeremonies.map fun req => req.prog (.withPasskeys 1) .plain) .withPasskey) :=
    .mono (C := fun p turn => cautious .plain p turn = true) (fun _ _ => .of_cautious)
      (by decide +kernel)
  have hsecond : Pool.Along Host.plain.machine (Cautious Counters.plain) secondOfTwo
      (passkeyRun (.withPasskeys 1) .plain twoCeremonies .withPasskey firstOfTwo) :=
    .mono (C := fun p turn => cautious .plain p turn = true) (fun _ _ => .of_cautious)
      (by decide +kernel)
  have ha : LoggedIn twoCeremonies
      (passkeyRun (.withPasskeys 1) .plain twoCeremonies .withPasskey firstOfTwo) 2 ⟨0, 1, 1, 5⟩ :=
    .of_isSignedIn rfl (by decide +kernel)
  have hj : NotBegun (passkeyRun (.withPasskeys 1) .plain twoCeremonies .withPasskey firstOfTwo) 3 :=
    .of_isEmpty (by decide +kernel)
  have hb : LoggedIn twoCeremonies ((passkeyRun (.withPasskeys 1) .plain twoCeremonies .withPasskey
      firstOfTwo).run Host.plain.machine secondOfTwo) 3 ⟨0, 1, 2, 7⟩ :=
    .of_isSignedIn rfl (by decide +kernel)
  exact clone_detected (W := .plain) plainCredential_lawful Counters.plain_lawful (by decide) (by decide) hfirst
    hsecond ha (by decide) hj hb rfl

def threeCeremonies : List (PasskeyRequest .plain) :=
  [.loginOptions "192.0.2.1" none ⟨"a", 1, []⟩, .loginOptions "192.0.2.1" none ⟨"b", 2, []⟩,
    .loginOptions "192.0.2.1" none ⟨"c", 3, []⟩,
    .login "192.0.2.1" (some "soika_passkey_auth=a") ⟨0, 1, 1, 5⟩ "first",
    .login "192.0.2.1" (some "soika_passkey_auth=b") ⟨0, 1, 2, 3⟩ "second",
    .login "192.0.2.1" (some "soika_passkey_auth=c") ⟨0, 1, 3, 4⟩ "third"]

/-- The login with counter 3 has read its credential when the login with counter 5 runs to its end. -/
def untilFirst : List (Turn authCalls Error) :=
  ([0, 0, 0, 0, 1, 1, 1, 1, 2, 2, 2, 2] ++ List.replicate 6 4 ++ List.replicate 11 3).map
    fun i => .thread i none

/-- It writes back its credential, and the third login begins. -/
def afterFirst : List (Turn authCalls Error) :=
  (List.replicate 5 4 ++ List.replicate 11 5).map fun i => .thread i none

theorem clone_accepted :
    LoggedIn threeCeremonies
        (passkeyRun (.withPasskeys 1) .plain threeCeremonies .withPasskey untilFirst) 3 ⟨0, 1, 1, 5⟩ ∧
      NotBegun (passkeyRun (.withPasskeys 1) .plain threeCeremonies .withPasskey untilFirst) 5 ∧
      LoggedIn threeCeremonies ((passkeyRun (.withPasskeys 1) .plain threeCeremonies .withPasskey
        untilFirst).run Host.plain.machine afterFirst) 5 ⟨0, 1, 3, 4⟩ ∧
      ¬ Counters.plain.asserted ⟨0, 1, 1, 5⟩ < Counters.plain.asserted ⟨0, 1, 3, 4⟩ := by
  refine ⟨.of_isSignedIn rfl ?_, .of_isEmpty ?_, .of_isSignedIn rfl ?_, by decide⟩
  · decide +kernel
  · decide +kernel
  · decide +kernel

end Soika.Auth
