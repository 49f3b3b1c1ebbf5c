import Soika.Auth.Handlers

/-! # Guessing in parallel

A login checks the lock of its key, verifies the password, and records a failure, in three
steps. The failures that are recorded before a key is locked are bounded by the threshold, and
those that come after by the requests that were in flight.
-/

namespace Soika.Auth

open Interaction

namespace LoginGuard

def count (key : String) (entries : Entries) : ℕ := (entries.get key).elim 0 Entry.failures

def lockedAt (key : String) (now : ℕ) (entries : Entries) : Bool :=
  (entries.get key).any (Entry.lockActive now)

/-- A call unlocks the key, or starts its count again: a success; a failure that drops its entry, that
finds its window elapsed, that is counted in the shared entry, or that locks it for no time. -/
def Restarts (config : LockoutConfig) (key : String) (now : ℕ) (entries : Entries) : Call → Prop
  | .check _ => False
  | .success k => k = key
  | .failure k =>
    (0 < count key entries ∧ (prune config now entries).get key = none) ∨
    k = key ∧ (trackedKey key (prune config now entries) ≠ key ∨
      (0 < count key entries ∧ (failing config key now entries).Elapsed config now) ∨
      ((failing config key now entries).Arms config now ∧
        ((failing config key now entries).armed config now).lockActive now = false))

instance (config : LockoutConfig) (key : String) (now : ℕ) (entries : Entries) (c : Call) :
    Decidable (Restarts config key now entries c) :=
  match c with
  | .check _ => inferInstanceAs (Decidable False)
  | .success _ => inferInstanceAs (Decidable (_ = _))
  | .failure _ => inferInstanceAs (Decidable (_ ∨ _))

variable {config : LockoutConfig} {key : String} {now : ℕ} {entries : Entries}

theorem toList_lockoutKey (ip email : String) : '|' ∈ (lockoutKey ip email).toList := by
  simp [lockoutKey]

theorem lockoutKey_ne_overflowKey (ip email : String) : lockoutKey ip email ≠ overflowKey := by
  intro h
  have hmem := toList_lockoutKey ip email
  rw [h] at hmem
  revert hmem
  decide

theorem count_of_none (h : entries.get key = none) : count key entries = 0 := by
  rw [count, h]
  rfl

theorem count_of_some {e : Entry} (h : entries.get key = some e) : count key entries = e.failures := by
  rw [count, h]
  rfl

theorem lockedAt_of_none (h : entries.get key = none) : lockedAt key now entries = false := by
  rw [lockedAt, h]
  rfl

theorem lockedAt_of_some {e : Entry} (h : entries.get key = some e) :
    lockedAt key now entries = e.lockActive now := by
  rw [lockedAt, h]
  rfl

theorem lockedAt_later (elapsed : ℕ) (h : lockedAt key now entries = false) :
    lockedAt key (now + elapsed) entries = false := by
  cases hget : entries.get key with
  | none => exact lockedAt_of_none hget
  | some e =>
    rw [lockedAt_of_some hget, Entry.lockActive] at h ⊢
    cases hl : e.lockedUntil with
    | none => rfl
    | some until_ =>
      simp only [hl, Option.any_some, decide_eq_false_iff_not, not_lt] at h ⊢
      omega

theorem lockedAt_of_dropped {e : Entry} (h : entries.get key = some e)
    (hdropped : (prune config now entries).get key = none) : lockedAt key now entries = false := by
  rw [get_prune, h] at hdropped
  have hidle : e.isIdle now config.window = true := by
    by_contra hbusy
    simp [Option.filter, hbusy] at hdropped
  rw [lockedAt_of_some h]
  simp only [Entry.isIdle, Bool.and_eq_true] at hidle
  unfold Entry.lockActive
  cases hl : e.lockedUntil with
  | none => rfl
  | some until_ =>
    have hle := hidle.1
    simp only [hl, Option.all_some, decide_eq_true_eq] at hle
    simp [hle]

/-- What pruning leaves of a key that it does not start again. -/
theorem prune_keeps (hkeeps : ¬ (0 < count key entries ∧ (prune config now entries).get key = none)) :
    count key (prune config now entries) = count key entries ∧
      lockedAt key now (prune config now entries) = lockedAt key now entries := by
  cases hget : entries.get key with
  | none =>
    have hnone : (prune config now entries).get key = none := by
      rw [get_prune, hget]
      rfl
    rw [count_of_none hget, count_of_none hnone, lockedAt_of_none hget, lockedAt_of_none hnone]
    exact ⟨rfl, rfl⟩
  | some e =>
    cases hpruned : (prune config now entries).get key with
    | none =>
      rw [count_of_none hpruned, lockedAt_of_none hpruned, lockedAt_of_dropped hget hpruned]
      refine ⟨?_, rfl⟩
      by_contra hne
      exact hkeeps ⟨Nat.pos_of_ne_zero fun h => hne h.symm, hpruned⟩
    | some e' =>
      have hsame : e = e' := by
        rw [get_prune, hget] at hpruned
        exact (Option.filter_eq_some_iff.mp hpruned).1 |> Option.some.inj
      rw [count_of_some hget, count_of_some hpruned, lockedAt_of_some hget, lockedAt_of_some hpruned,
        hsame]
      exact ⟨rfl, rfl⟩

theorem failure_other (henabled : config.enabled = true) (hkey : key ≠ overflowKey) {k : String}
    (hk : k ≠ key) (hkeeps : ¬ Restarts config key now entries (.failure k)) :
    count key (recorded config k now entries) = count key entries ∧
      lockedAt key now (recorded config k now entries) = lockedAt key now entries := by
  have hget : (recorded config k now entries).get key = (prune config now entries).get key := by
    rw [get_recorded henabled, if_neg]
    rcases trackedKey_eq_or k (prune config now entries) with h | h
    · rw [h]
      exact hk.symm
    · rw [h]
      exact hkey
  have hpruned := prune_keeps fun h => hkeeps (.inl h)
  unfold count lockedAt at *
  rw [hget]
  exact hpruned

theorem failing_keeps (hkeeps : ¬ Restarts config key now entries (.failure key)) :
    (failing config key now entries).failures = count key entries ∧
      (failing config key now entries).lockActive now = lockedAt key now entries := by
  have htracked : trackedKey key (prune config now entries) = key := by
    by_contra h
    exact hkeeps (.inr ⟨rfl, .inl h⟩)
  obtain ⟨hcount, hlocked⟩ := prune_keeps fun h => hkeeps (.inl h)
  rw [failing, htracked, ← hcount, ← hlocked, entryOf]
  cases h : (prune config now entries).get key with
  | none => exact ⟨(count_of_none h).symm, (lockedAt_of_none h).symm⟩
  | some e => exact ⟨(count_of_some h).symm, (lockedAt_of_some h).symm⟩

theorem failure_own (henabled : config.enabled = true)
    (hkeeps : ¬ Restarts config key now entries (.failure key)) :
    (lockedAt key now (recorded config key now entries) = true ∧
        config.maxAttempts ≤ count key entries + 1) ∨
      (count key (recorded config key now entries) = count key entries + 1 ∧
        lockedAt key now (recorded config key now entries) = lockedAt key now entries) := by
  have htracked : trackedKey key (prune config now entries) = key := by
    by_contra h
    exact hkeeps (.inr ⟨rfl, .inl h⟩)
  have hget : (recorded config key now entries).get key =
      some ((failing config key now entries).failed config now) := by
    rw [get_recorded henabled, if_pos htracked.symm]
  obtain ⟨hcount, hlocked⟩ := failing_keeps hkeeps
  have hroll : ((failing config key now entries).roll config now).failures = count key entries := by
    unfold Entry.roll
    split
    · rename_i helapsed
      by_contra hne
      refine hkeeps (.inr ⟨rfl, .inr (.inl ⟨Nat.pos_of_ne_zero fun h => hne h.symm, helapsed⟩)⟩)
    · exact hcount
  by_cases harms : (failing config key now entries).Arms config now
  · refine .inl ⟨?_, hroll ▸ harms⟩
    rw [lockedAt_of_some hget, Entry.failed_of_arms harms]
    by_contra hfree
    exact hkeeps (.inr ⟨rfl, .inr (.inr ⟨harms, Bool.not_eq_true _ ▸ hfree⟩)⟩)
  · refine .inr ?_
    rw [count_of_some hget, lockedAt_of_some hget, Entry.failed_of_not_arms harms, ← hlocked]
    refine ⟨congrArg (· + 1) hroll, ?_⟩
    unfold Entry.lockActive
    rw [Entry.roll_lockedUntil]

theorem count_lt_step (c : ℕ × Call) (h : count key entries < config.maxAttempts) :
    count key (step config entries c) < config.maxAttempts := by
  obtain ⟨now, k | k | k⟩ := c
  · exact h
  · change count key (recorded config k now entries) < config.maxAttempts
    by_cases henabled : config.enabled = true
    · have hprune : count key (prune config now entries) < config.maxAttempts := by
        unfold count
        rw [get_prune]
        cases hget : entries.get key with
        | none => exact config.maxAttempts_pos
        | some e =>
          rw [count_of_some hget] at h
          rw [Option.filter_some]
          split
          · exact h
          · exact config.maxAttempts_pos
      unfold count
      rw [get_recorded henabled]
      split
      · unfold Entry.failed
        split
        · exact config.maxAttempts_pos
        · rename_i harms
          exact not_le.mp harms
      · exact hprune
    · have hsame : recorded config k now entries = entries := if_neg henabled
      rwa [hsame]
  · change count key (recordSuccess config k entries) < config.maxAttempts
    by_cases henabled : config.enabled = true
    · unfold count
      rw [get_recordSuccess henabled]
      split
      · exact config.maxAttempts_pos
      · exact h
    · have hsame : recordSuccess config k entries = entries := if_neg henabled
      rwa [hsame]

end LoginGuard

inductive Phase where
  | waiting
  /-- The lock has been checked. -/
  | checked
  /-- The password was wrong. -/
  | guessed
  | over
  deriving DecidableEq

def Phase.isOpen : Phase → Bool
  | checked => true
  | guessed => true
  | _ => false

def phaseAfter (phase : Phase) (e : Transition authCalls Error Server) : Phase :=
  match e with
  | ⟨_, .guard (.check _), .ok .allowed, _⟩ => .checked
  | ⟨_, .query (.verifyPassword _ _), .ok false, _⟩ => .guessed
  | ⟨_, .query (.verifyPassword _ _), .ok true, _⟩ => .over
  | ⟨_, .query (.verifyDummy _), _, _⟩ => .guessed
  | ⟨_, .guard (.failure _), _, _⟩ => .over
  | ⟨_, .guard (.success _), _, _⟩ => .over
  | ⟨_, _, .error _, _⟩ => .over
  | _ => phase

def phaseOf (h : List (Transition authCalls Error Server)) : Phase := h.foldl phaseAfter .waiting

def Guesses (e : Transition authCalls Error Server) : Bool :=
  match e with
  | ⟨_, .query (.verifyPassword _ _), .ok false, _⟩ => true
  | ⟨_, .query (.verifyDummy _), _, _⟩ => true
  | _ => false

structure Guessing where
  phase : Phase
  guesses : ℕ

def Guessing.start : Guessing := ⟨.waiting, 0⟩

def Guessing.pending (t : Guessing) : ℕ := if t.phase = .checked then 1 else 0

def Guessing.unrecorded (t : Guessing) : ℕ := if t.phase = .guessed then 1 else 0

def MayLogin (key : String) (phase : Phase) : AuthCall → Prop
  | .guard (.check k) => phase = .waiting ∧ k = key
  | .guard (.failure k) => (phase = .guessed ∨ phase = .over) ∧ k = key
  | .guard (.success k) => phase = .over ∧ k = key
  | .query (.findUserByEmail _) => phase = .checked
  | .query (.verifyPassword _ _) => phase = .checked
  | .query (.verifyDummy _) => phase = .checked
  | .query .now => phase = .over
  | .write (.createSession _ _ _) => phase = .over
  | _ => False

def loginProtocol (key : String) : Protocol authCalls Error Server Guessing where
  may t := MayLogin key t.phase
  next t e := ⟨phaseAfter t.phase e, t.guesses + if Guesses e then 1 else 0⟩

def Landed {α : Type} (t : Guessing) (_ : Interaction.Outcome Error α) : Prop := t.phase.isOpen = false

variable {H : Host} {app : AppState} {key : String} {t : Guessing} {α : Type}

theorem landed_of_over (h : t.phase = .over) : t.phase.isOpen = false := by
  rw [h]
  rfl

theorem startSession_lands (sessionId : String) (userId : Id) (ht : t.phase = .over) :
    (startSession sessionId userId).Obeys H.machine (loginProtocol key)
      (Prog.Ends (fun t => t.phase = .over) fun t => t.phase = .over) t := by
  refine Prog.Obeys.ask ht (fun s now s' _ => ?_) fun _ _ _ _ _ => rfl
  cases Timestamp.add now sessionTtl with
  | none => exact ht
  | some expiresAt => exact Prog.Obeys.ask_last ht (fun _ _ _ _ => ht) fun _ _ _ _ _ => rfl

theorem finishLogin_lands (drawn : Drawn) (user : Option UserRow) (verified : Bool)
    (ht : t.phase = if verified then .over else .guessed) :
    (finishLogin app key drawn user verified).Obeys H.machine (loginProtocol key) Landed t := by
  unfold finishLogin
  have hfailure : (guard (.failure key) >>= fun _ =>
      (Prog.fail (.auth "invalid email or password") : Prog authCalls Error Response)).Obeys H.machine
        (loginProtocol key) Landed t := by
    refine Prog.Obeys.ask ⟨?_, rfl⟩ (fun _ _ _ _ => rfl) fun _ _ _ _ _ => rfl
    rw [ht]
    cases verified with
    | true => exact .inr rfl
    | false => exact .inl rfl
  cases verified with
  | false =>
    have hnone : (user.filter fun u => false && mayUsePassword app u) = none := by
      cases user <;> rfl
    rw [hnone]
    exact hfailure
  | true =>
    split
    · refine Prog.Obeys.ask ⟨ht, rfl⟩ (fun s r s' _ => ?_) fun _ _ _ _ _ => rfl
      refine Prog.Obeys.bind ((startSession_lands _ _ rfl).mono fun t o h => ?_)
      cases o with
      | ok a => exact landed_of_over h
      | err e => exact landed_of_over h
      | panic => exact landed_of_over h
    · split
      · exact landed_of_over ht
      · exact hfailure

/-- The end of a verification: a failed one is a guess. -/
def Verified (t : Guessing) : Interaction.Outcome Error Bool → Prop
  | .ok verified => t.phase = if verified then .over else .guessed
  | _ => t.phase.isOpen = false

theorem verifyLogin_obeys (password : String) (user : Option UserRow) (ht : t.phase = .checked) :
    (verifyLogin password user).Obeys H.machine (loginProtocol key) Verified t := by
  have hdummy : (verifyDummy password).Obeys H.machine (loginProtocol key) Verified t :=
    Prog.Obeys.attempt ht (fun _ _ _ _ => rfl) fun _ _ _ _ _ => rfl
  cases user with
  | none => exact hdummy
  | some u =>
    by_cases hhash : u.passwordHash ≠ ""
    · have hverify : verifyLogin password (some u) = get (.verifyPassword password u.passwordHash) :=
        if_pos hhash
      rw [hverify]
      refine Prog.Obeys.ask_last ht (fun s verified s' _ => ?_) fun _ _ _ _ _ => rfl
      cases (verified : Bool) <;> rfl
    · have hverify : verifyLogin password (some u) = verifyDummy password := if_neg hhash
      rw [hverify]
      exact hdummy

theorem attemptLogin_lands (email password : String) (drawn : Drawn) (ht : t.phase = .checked) :
    (attemptLogin app key email password drawn).Obeys H.machine (loginProtocol key) Landed t := by
  refine Prog.Obeys.ask ht (fun s found s' _ => ?_) fun _ _ _ _ _ => rfl
  refine Prog.Obeys.bind ((verifyLogin_obeys password (Option.map app.adminUsers.apply found)
    ht).mono fun t o h => ?_)
  cases o with
  | ok verified => exact finishLogin_lands drawn _ verified h
  | err e => exact h
  | panic => exact h

theorem login_lands {ip email : String} (body : LoginRequest) (drawn : Drawn)
    (hemail : ∀ e, normalizeEmail body.email = .ok e → e = email) (ht : t.phase = .waiting) :
    (login app ip body drawn).Obeys H.machine (loginProtocol (lockoutKey ip email)) Landed t := by
  have hwaiting : t.phase.isOpen = false := by rw [ht]; rfl
  unfold login
  cases requireEmailLogin app with
  | error e => exact hwaiting
  | ok r =>
    cases hnormal : normalizeEmail body.email with
    | error e => exact hwaiting
    | ok e =>
      obtain rfl := hemail e hnormal
      refine Prog.Obeys.ask ⟨ht, rfl⟩ (fun s decision s' _ => ?_) fun _ _ _ _ _ => rfl
      cases decision with
      | locked retryAfterSecs => exact hwaiting
      | allowed => exact attemptLogin_lands _ _ _ rfl

namespace LoginGuard

theorem lockedAt_of_allowed {config : LockoutConfig} {now : ℕ} {entries : Entries}
    (henabled : config.enabled = true) (h : checkAt config key now entries = .allowed) :
    lockedAt key now entries = false := by
  cases hget : entries.get key with
  | none => exact lockedAt_of_none hget
  | some e =>
    rw [lockedAt_of_some hget, Entry.lockActive]
    cases hl : e.lockedUntil with
    | none => rfl
    | some until_ =>
      rw [checkAt, if_pos henabled, checked, hget, Option.some_or, Option.bind_some, hl] at h
      by_contra hlocked
      have hlt : now < until_ := by simpa using hlocked
      simp [hlt] at h

end LoginGuard

open LoginGuard

/-- The failed verifications `guesses`, with `pending` requests before theirs and `unrecorded` ones
after it: while the key is free all of them are counted or in flight, and while it is locked no request
comes after those in flight. -/
structure Tally (config : LockoutConfig) (key : String) (base k guesses pending unrecorded : ℕ)
    (s : Server) : Prop where
  below : count key s.loginGuard < config.maxAttempts
  free : lockedAt key s.instant s.loginGuard = false →
    guesses ≤ base + count key s.loginGuard + unrecorded
  locked : lockedAt key s.instant s.loginGuard = true →
    guesses + pending ≤ base + (config.maxAttempts - 1 + k)

def Unlocks (config : LockoutConfig) (key : String) (s : Server) : AuthCall → Prop
  | .guard g => Restarts config key s.instant s.loginGuard g
  | .advance elapsed _ => lockedAt key s.instant s.loginGuard = true ∧
      lockedAt key (s.instant + elapsed) s.loginGuard = false
  | _ => False

instance (config : LockoutConfig) (key : String) (s : Server) (c : AuthCall) :
    Decidable (Unlocks config key s c) :=
  match c with
  | .guard _ => inferInstanceAs (Decidable (Restarts _ _ _ _ _))
  | .advance _ _ => inferInstanceAs (Decidable (_ ∧ _))
  | .query _ => inferInstanceAs (Decidable False)
  | .write _ => inferInstanceAs (Decidable False)
  | .reconcileUser _ _ _ => inferInstanceAs (Decidable False)

namespace Tally

variable {config : LockoutConfig} {base k guesses pending unrecorded guesses' pending' unrecorded' : ℕ}
  {s s' : Server}

theorem move (h : Tally config key base k guesses pending unrecorded s)
    (hguard : s'.loginGuard = s.loginGuard) (hinstant : s'.instant = s.instant)
    (hfree : guesses' + unrecorded ≤ guesses + unrecorded')
    (hlocked : guesses' + pending' ≤ guesses + pending) :
    Tally config key base k guesses' pending' unrecorded' s' where
  below := hguard ▸ h.below
  free hs := by
    rw [hguard, hinstant] at hs
    have hold := h.free hs
    rw [hguard]
    omega
  locked hs := by
    rw [hguard, hinstant] at hs
    have hold := h.locked hs
    omega

theorem same (h : Tally config key base k guesses pending unrecorded s)
    (hguard : s'.loginGuard = s.loginGuard) (hinstant : s'.instant = s.instant) :
    Tally config key base k guesses pending unrecorded s' :=
  h.move hguard hinstant le_rfl le_rfl

/-- A request is admitted only while the key is free. -/
theorem allow (h : Tally config key base k guesses pending unrecorded s)
    (hs : lockedAt key s.instant s.loginGuard = false) :
    Tally config key base k guesses pending' unrecorded s where
  below := h.below
  free := h.free
  locked hlocked := by
    rw [hs] at hlocked
    cases hlocked

theorem failure_own (henabled : config.enabled = true)
    (h : Tally config key base k guesses pending unrecorded s) (hflight : pending + unrecorded ≤ k)
    (hkeeps : ¬ Restarts config key s.instant s.loginGuard (.failure key))
    (hle : unrecorded ≤ unrecorded' + 1) (hle' : unrecorded' ≤ unrecorded) :
    Tally config key base k guesses pending unrecorded' { s with
      loginGuard := recorded config key s.instant s.loginGuard } := by
  have hbelow := count_lt_step (s.instant, .failure key) h.below
  have hcount := h.below
  rcases LoginGuard.failure_own henabled hkeeps with ⟨hlocked, hmax⟩ | ⟨hcounted, hsame⟩
  · refine ⟨hbelow, fun hfree => ?_, fun _ => ?_⟩
    · rw [hlocked] at hfree
      cases hfree
    · cases hs : lockedAt key s.instant s.loginGuard with
      | true => exact h.locked hs
      | false =>
        have hold := h.free hs
        omega
  · refine ⟨hbelow, fun hfree => ?_, fun hlocked => ?_⟩
    · have hold := h.free (hsame ▸ hfree)
      simp only [hcounted]
      omega
    · exact h.locked (hsame ▸ hlocked)

theorem failure_other (henabled : config.enabled = true) (hkey : key ≠ overflowKey)
    (h : Tally config key base k guesses pending unrecorded s) {other : String} (hne : other ≠ key)
    (hkeeps : ¬ Restarts config key s.instant s.loginGuard (.failure other)) :
    Tally config key base k guesses pending unrecorded { s with
      loginGuard := recorded config other s.instant s.loginGuard } := by
  obtain ⟨hcount, hlocked⟩ := LoginGuard.failure_other henabled hkey hne hkeeps
  refine ⟨?_, fun hfree => ?_, fun hs => ?_⟩
  · exact hcount.trans_lt h.below
  · have hold := h.free (hlocked ▸ hfree)
    simp only [hcount]
    exact hold
  · exact h.locked (hlocked ▸ hs)

/-- A call of somebody else that does not unlock the key. -/
theorem other {H : Host} (henabled : H.lockout.enabled = true) (hkey : key ≠ overflowKey)
    (h : Tally H.lockout key base k guesses pending unrecorded s) (hflight : pending + unrecorded ≤ k)
    {c : AuthCall} (hkeeps : ¬ Unlocks H.lockout key s c) :
    Tally H.lockout key base k guesses pending unrecorded (H.machine.step c s).2 := by
  cases c with
  | query q => exact h
  | write w =>
    rcases Host.runWrite_state (H := H) w s with hs | ⟨r, d, -, hs⟩
    · rwa [Host.machine_write, hs]
    · rw [Host.machine_write, hs]
      exact h.same rfl rfl
  | reconcileUser userId groups occasion => exact h.same rfl rfl
  | advance elapsed clock =>
    refine ⟨h.below, fun hfree => h.free ?_, fun hlocked => h.locked ?_⟩
    · by_contra hs
      exact hkeeps ⟨Bool.not_eq_false _ ▸ hs, hfree⟩
    · by_contra hs
      have hfree := lockedAt_later elapsed (Bool.not_eq_true _ ▸ hs)
      cases hlocked.symm.trans hfree
  | guard g =>
    cases g with
    | check other => exact h
    | failure other =>
      by_cases hne : other = key
      · subst hne
        exact h.failure_own henabled hflight hkeeps (Nat.le_succ _) le_rfl
      · exact h.failure_other henabled hkey hne hkeeps
    | success other =>
      have hne : key ≠ other := fun heq => hkeeps heq.symm
      have hget : (recordSuccess H.lockout other s.loginGuard).get key = s.loginGuard.get key := by
        rw [get_recordSuccess henabled, if_neg hne]
      refine ⟨?_, fun hfree => ?_, fun hlocked => ?_⟩
      · have hold := h.below
        unfold count at hold ⊢
        rwa [← hget] at hold
      · have hold := h.free (by unfold lockedAt at hfree ⊢; rwa [← hget])
        unfold count at hold ⊢
        rwa [← hget] at hold
      · exact h.locked (by unfold lockedAt at hlocked ⊢; rwa [← hget])

end Tally

/-- The requests that are between the check of the lock and the recording of a failure. -/
def inFlight (p : Pool authCalls Error Server Response) : ℕ :=
  p.threads.countP fun th => (phaseOf th.history).isOpen

def Tallied (config : LockoutConfig) (key : String) (base k : ℕ) (s : Server) (ts : List Guessing) :
    Prop :=
  Tally config key base k (ts.map Guessing.guesses).sum (ts.map Guessing.pending).sum
    (ts.map Guessing.unrecorded).sum s

theorem phase_after (h : List (Transition authCalls Error Server)) :
    ((loginProtocol key).after t h).phase = h.foldl phaseAfter t.phase := by
  induction h generalizing t with
  | nil => rfl
  | cons e h ih => exact ih

theorem inFlight_eq (key : String) (p : Pool authCalls Error Server Response) :
    inFlight p = ((p.locals (loginProtocol key) .start).map Guessing.pending).sum +
      ((p.locals (loginProtocol key) .start).map Guessing.unrecorded).sum := by
  unfold inFlight Pool.locals
  induction p.threads with
  | nil => rfl
  | cons th ths ih =>
    rw [List.countP_cons, ih, List.map_cons, List.map_cons, List.map_cons, List.sum_cons, List.sum_cons]
    have hphase : ((loginProtocol key).after .start th.history).phase = phaseOf th.history :=
      phase_after th.history
    have hone : (if (phaseOf th.history).isOpen then 1 else 0) =
        ((loginProtocol key).after .start th.history).pending +
          ((loginProtocol key).after .start th.history).unrecorded := by
      rw [Guessing.pending, Guessing.unrecorded, hphase]
      cases phaseOf th.history <;> rfl
    rw [hone]
    omega

variable {base k : ℕ} {ts : List Guessing} {i : ℕ} {s s' : Server}

theorem Tallied.move (h : Tallied H.lockout key base k s ts) (hi : ts[i]? = some t) {t' : Guessing}
    (hguard : s'.loginGuard = s.loginGuard) (hinstant : s'.instant = s.instant)
    (hfree : t'.guesses + t.unrecorded ≤ t.guesses + t'.unrecorded)
    (hlocked : t'.guesses + t'.pending ≤ t.guesses + t.pending) :
    Tallied H.lockout key base k s' (ts.set i t') := by
  have hguesses := sum_map_set hi t' Guessing.guesses
  have hpending := sum_map_set hi t' Guessing.pending
  have hunrecorded := sum_map_set hi t' Guessing.unrecorded
  exact Tally.move h hguard hinstant (by omega) (by omega)

theorem Tallied.admitted (h : Tallied H.lockout key base k s ts) (hi : ts[i]? = some t) {t' : Guessing}
    (hs' : s' = s) (hfree : lockedAt key s.instant s.loginGuard = false)
    (hunrecorded : t'.unrecorded = t.unrecorded) (hguesses : t'.guesses = t.guesses) :
    Tallied H.lockout key base k s' (ts.set i t') := by
  have hsum := sum_map_set hi t' Guessing.guesses
  have hsum' := sum_map_set hi t' Guessing.unrecorded
  have hadmit : Tally H.lockout key base k (ts.map Guessing.guesses).sum
      ((ts.set i t').map Guessing.pending).sum (ts.map Guessing.unrecorded).sum s := Tally.allow h hfree
  subst hs'
  exact hadmit.move rfl rfl (by omega) (by omega)

theorem Tallied.recorded (henabled : H.lockout.enabled = true)
    (h : Tallied H.lockout key base k s ts) (hi : ts[i]? = some t)
    (hflight : (ts.map Guessing.pending).sum + (ts.map Guessing.unrecorded).sum ≤ k)
    (hkeeps : ¬ Unlocks H.lockout key s (.guard (.failure key))) {t' : Guessing}
    (hpending : t'.pending = t.pending) (hunrecorded : t'.unrecorded = 0 ∧ t.unrecorded ≤ 1)
    (hguesses : t'.guesses = t.guesses)
    (hs' : s' = { s with loginGuard := recorded H.lockout key s.instant s.loginGuard }) :
    Tallied H.lockout key base k s' (ts.set i t') := by
  have hsum := sum_map_set hi t' Guessing.guesses
  have hsum' := sum_map_set hi t' Guessing.unrecorded
  have hsum'' := sum_map_set hi t' Guessing.pending
  have hfailed : Tally H.lockout key base k (ts.map Guessing.guesses).sum
      (ts.map Guessing.pending).sum ((ts.set i t').map Guessing.unrecorded).sum s' := by
    rw [hs']
    exact Tally.failure_own henabled h hflight hkeeps (by omega) (by omega)
  exact hfailed.move rfl rfl (by omega) (by omega)

theorem Tallied.call (henabled : H.lockout.enabled = true) (h : Tallied H.lockout key base k s ts)
    (hi : ts[i]? = some t) {c : AuthCall} (hmay : MayLogin key t.phase c) {fault : Option Error}
    (hfault : ∀ g, c = .guard g → fault = none)
    (hflight : (ts.map Guessing.pending).sum + (ts.map Guessing.unrecorded).sum ≤ k)
    (hkeeps : ¬ Unlocks H.lockout key s c) :
    Tallied H.lockout key base k (H.machine.answer c fault s).2
      (ts.set i ((loginProtocol key).next t (H.machine.transition c fault s))) := by
  obtain ⟨phase, n⟩ := t
  cases c with
  | query q =>
    have hs : (H.machine.answer (.query q) fault s).2 = s := by cases fault <;> rfl
    rw [hs]
    cases q with
    | now =>
      obtain rfl : phase = .over := hmay
      cases fault <;> exact h.move hi rfl rfl le_rfl le_rfl
    | findUserByEmail email =>
      obtain rfl : phase = .checked := hmay
      cases fault with
      | none => exact h.move hi rfl rfl le_rfl le_rfl
      | some e => exact h.move hi rfl rfl le_rfl (Nat.le_succ _)
    | verifyPassword password stored =>
      obtain rfl : phase = .checked := hmay
      cases fault with
      | some e => exact h.move hi rfl rfl le_rfl (Nat.le_succ _)
      | none =>
        rcases hv : H.argon2.verify password stored with e | verified
        · refine h.move hi rfl rfl ?_ ?_ <;>
            simp [loginProtocol, Machine.transition, Host.machine_query, Query.eval, hv, phaseAfter,
              Guesses, Guessing.unrecorded, Guessing.pending]
        · cases verified <;> refine h.move hi rfl rfl ?_ ?_ <;>
            simp [loginProtocol, Machine.transition, Host.machine_query, Query.eval, hv, phaseAfter,
              Guesses, Guessing.unrecorded, Guessing.pending]
    | verifyDummy password =>
      obtain rfl : phase = .checked := hmay
      cases fault <;> exact h.move hi rfl rfl le_rfl le_rfl
    | _ => exact hmay.elim
  | guard g =>
    obtain rfl := hfault g rfl
    cases g with
    | check other =>
      obtain ⟨hphase, rfl⟩ := hmay
      obtain rfl : phase = .waiting := hphase
      cases hdecision : checkAt H.lockout other s.instant s.loginGuard with
      | locked retryAfterSecs =>
        refine h.move hi rfl rfl ?_ ?_ <;>
          simp [loginProtocol, Machine.transition, Host.machine_guard, Host.guardReply, hdecision,
            phaseAfter, Guesses, Guessing.unrecorded, Guessing.pending]
      | allowed =>
        exact h.admitted hi rfl (lockedAt_of_allowed henabled hdecision) (by
          simp [loginProtocol, Machine.transition, Host.machine_guard, Host.guardReply, hdecision,
            phaseAfter, Guesses, Guessing.unrecorded]) (by
          simp [loginProtocol, Machine.transition, Host.machine_guard, Host.guardReply, hdecision,
            phaseAfter, Guesses])
    | failure other =>
      obtain ⟨hphase, rfl⟩ := hmay
      refine h.recorded henabled hi hflight hkeeps ?_ ?_ rfl rfl
      · rcases hphase with hphase | hphase <;> obtain rfl : phase = _ := hphase <;> rfl
      · rcases hphase with hphase | hphase <;> obtain rfl : phase = _ := hphase
        · exact ⟨rfl, le_rfl⟩
        · exact ⟨rfl, Nat.zero_le _⟩
    | success other => exact absurd hmay.2 hkeeps
  | write w =>
    cases w with
    | createSession id userId expiresAt =>
      obtain rfl : phase = .over := hmay
      rcases hans : H.machine.answer (.write (.createSession id userId expiresAt)) fault s with
        ⟨a, s'⟩
      have hsame : s'.loginGuard = s.loginGuard ∧ s'.instant = s.instant := by
        have hs' : (H.machine.answer (.write (.createSession id userId expiresAt)) fault s).2 = s' :=
          congrArg Prod.snd hans
        subst hs'
        cases fault with
        | some e => exact ⟨rfl, rfl⟩
        | none =>
          rw [Machine.answer_none, Host.machine_write]
          rcases Host.runWrite_state (H := H) (.createSession id userId expiresAt) s with hs | ⟨_, d, -, hs⟩
          · rw [hs]
            exact ⟨rfl, rfl⟩
          · rw [hs]
            exact ⟨rfl, rfl⟩
      simp only [Machine.transition, hans]
      cases a <;> exact h.move hi hsame.1 hsame.2 le_rfl le_rfl
    | _ => exact hmay.elim
  | _ => exact hmay.elim

/-- The turn reaches the guard, which is in memory, and does not unlock the key. -/
def Continues (H : Host) (key : String) (p : Pool authCalls Error Server Response)
    (turn : Turn authCalls Error) : Prop :=
  ∀ c, p.calling turn = some c →
    (∀ g, c = .guard g → turn.fault = none) ∧ ¬ Unlocks H.lockout key p.state c

theorem tallied_turn (henabled : H.lockout.enabled = true) (hkey : key ≠ overflowKey)
    {p : Pool authCalls Error Server Response}
    (hobeys : p.Obeys H.machine (loginProtocol key) Landed .start)
    (h : Tallied H.lockout key base k p.state (p.locals (loginProtocol key) .start))
    {turn : Turn authCalls Error} (hturn : Continues H key p turn) (hflight : inFlight p ≤ k) :
    (p.turn H.machine turn).Obeys H.machine (loginProtocol key) Landed .start ∧
      Tallied H.lockout key base k (p.turn H.machine turn).state
        ((p.turn H.machine turn).locals (loginProtocol key) .start) := by
  rw [inFlight_eq key] at hflight
  cases turn with
  | other c => exact ⟨hobeys, Tally.other henabled hkey h hflight (hturn c rfl).2⟩
  | thread i fault =>
    cases hth : p.threads[i]? with
    | none =>
      simp only [Pool.turn, hth]
      exact ⟨hobeys, h⟩
    | some th =>
      cases hc : th.rest with
      | call c next =>
        obtain ⟨hobeys', hmay, hstate, hlocals⟩ := hobeys.turn_call hth hc fault
        refine ⟨hobeys', ?_⟩
        rw [hstate, hlocals]
        obtain ⟨hfault, hkeeps⟩ := hturn c (by simp [Pool.calling, hth, hc])
        refine h.call henabled ?_ hmay hfault hflight hkeeps
        rw [Pool.locals, List.getElem?_map, hth, Option.map_some]
      | _ =>
        have hend : th.rest.ended = true := by rw [hc]; rfl
        have hsame : p.turn H.machine (.thread i fault) = p := by
          obtain ⟨s, threads⟩ := p
          obtain ⟨hi, hi'⟩ := List.getElem?_eq_some_iff.mp hth
          simp only [Pool.turn, hth, Thread.advance_ended H.machine hend]
          rw [← hi', List.set_getElem_self]
        rw [hsame]
        exact ⟨hobeys, h⟩

theorem tallied_run (henabled : H.lockout.enabled = true) (hkey : key ≠ overflowKey)
    {p : Pool authCalls Error Server Response}
    (hobeys : p.Obeys H.machine (loginProtocol key) Landed .start)
    (h : Tallied H.lockout key base k p.state (p.locals (loginProtocol key) .start))
    {period : List (Turn authCalls Error)}
    (hperiod : ∀ n turn, period[n]? = some turn → Continues H key (p.run H.machine (period.take n)) turn)
    (hflight : ∀ n, inFlight (p.run H.machine (period.take n)) ≤ k) :
    Tallied H.lockout key base k (p.run H.machine period).state
      ((p.run H.machine period).locals (loginProtocol key) .start) := by
  induction period generalizing p with
  | nil => exact h
  | cons turn period ih =>
    obtain ⟨hobeys', h'⟩ := tallied_turn henabled hkey hobeys h (hperiod 0 turn rfl) (hflight 0)
    exact ih hobeys' h' (fun n turn hn => hperiod (n + 1) turn hn) fun n => hflight (n + 1)

/-- The guard of a run never counts as many failures as lock a key. -/
theorem count_lt_run {progs : List (Prog authCalls Error Response)} {s : Server}
    (hs : s.loginGuard = .empty) (turns : List (Turn authCalls Error)) :
    count key ((Pool.start progs s).run H.machine turns).state.loginGuard < H.lockout.maxAttempts := by
  have hstep : ∀ (c : AuthCall) (s : Server), count key s.loginGuard < H.lockout.maxAttempts →
      count key (H.machine.step c s).2.loginGuard < H.lockout.maxAttempts := by
    intro c s h
    cases c with
    | guard g => exact count_lt_step _ h
    | write w =>
      rcases Host.runWrite_state (H := H) w s with hs | ⟨r, d, -, hs⟩
      · rwa [Host.machine_write, hs]
      · rwa [Host.machine_write, hs]
    | _ => exact h
  refine (Pool.run_sound (I := fun s => count key s.loginGuard < H.lockout.maxAttempts) hstep ?_
    (Pool.start_sound progs s) turns).1
  change count key s.loginGuard < _
  rw [hs]
  exact H.lockout.maxAttempts_pos

/-- In every run of logins for one key, among any other calls, and in every period of it in which the
key is not unlocked and its count not started again: while at most `k` requests are in flight, at most
one less than the threshold and `k` passwords are verified without success. -/
theorem guesses_bounded (H : Host) (app : AppState) (ip email : String)
    (requests : List (LoginRequest × Drawn)) (s : Server) (turns period : List (Turn authCalls Error))
    (k : ℕ) (henabled : H.lockout.enabled = true) (hs : s.loginGuard = .empty)
    (hemail : ∀ r ∈ requests, ∀ e, normalizeEmail r.1.email = .ok e → e = email)
    (hperiod : ∀ n turn, period[n]? = some turn → Continues H (lockoutKey ip email)
      (((Pool.start (requests.map fun r => login app ip r.1 r.2) s).run H.machine turns).run H.machine
        (period.take n)) turn)
    (hflight : ∀ n, inFlight (((Pool.start (requests.map fun r => login app ip r.1 r.2) s).run
      H.machine turns).run H.machine (period.take n)) ≤ k) :
    let p := (Pool.start (requests.map fun r => login app ip r.1 r.2) s).run H.machine turns
    (p.run H.machine period).tally Guesses ≤ p.tally Guesses + (H.lockout.maxAttempts - 1 + k) := by
  intro p
  have hprogs : ∀ q ∈ requests.map fun r => login app ip r.1 r.2,
      q.Obeys H.machine (loginProtocol (lockoutKey ip email)) Landed .start := by
    intro q hq
    obtain ⟨r, hr, rfl⟩ := List.mem_map.mp hq
    exact login_lands r.1 r.2 (hemail r hr) rfl
  have hobeys : p.Obeys H.machine (loginProtocol (lockoutKey ip email)) Landed .start :=
    (Pool.Obeys.run_start (J := fun _ _ => True) (fun _ _ _ _ _ _ _ _ _ => trivial)
      (fun _ _ _ (_ : True) _ => trivial) hprogs trivial fun _ _ => trivial).1
  have hguesses : ∀ q : Pool authCalls Error Server Response, q.tally Guesses =
      ((q.locals (loginProtocol (lockoutKey ip email)) .start).map Guessing.guesses).sum := fun q =>
    Pool.tally_eq (loginProtocol (lockoutKey ip email)) .start Guessing.guesses rfl (fun _ _ => rfl) q
  have hfirst : inFlight p ≤ k := hflight 0
  have hlast : inFlight (p.run H.machine period) ≤ k := by
    have hwhole := hflight period.length
    rwa [List.take_length] at hwhole
  rw [inFlight_eq (lockoutKey ip email)] at hfirst hlast
  have hstart : Tallied H.lockout (lockoutKey ip email) (p.tally Guesses) k p.state
      (p.locals (loginProtocol (lockoutKey ip email)) .start) :=
    ⟨count_lt_run hs turns, fun _ => by rw [hguesses]; omega, fun _ => by rw [hguesses]; omega⟩
  have htally := tallied_run henabled (lockoutKey_ne_overflowKey ip email) hobeys hstart hperiod hflight
  have hbelow := htally.below
  have hend := hguesses (p.run H.machine period)
  cases hlocked : lockedAt (lockoutKey ip email) (p.run H.machine period).state.instant
      (p.run H.machine period).state.loginGuard with
  | true =>
    have hbound := htally.locked hlocked
    omega
  | false =>
    have hbound := htally.free hlocked
    omega

def Host.strict : Host := { Host.plain with
  lockout := LoginGuard.oneAttempt }

def guesser (sessionId : String) : LoginRequest × Drawn := ⟨⟨"ann@a.b", "guess"⟩, ⟨sessionId, "1"⟩⟩

theorem normalizeEmail_guesser (sessionId : String) :
    normalizeEmail (guesser sessionId).1.email = .ok "ann@a.b" := by
  change normalizeEmail "ann@a.b" = .ok "ann@a.b"
  decide +kernel

def failedLogin (i : ℕ) : List (Turn authCalls Error) :=
  List.replicate 4 (.thread i none) ++ [.other (.advance (ofSecs 900) .epoch)]

def guessers (sessionIds : List String) : List (LoginRequest × Drawn) := sessionIds.map guesser

def overlapping : List (Turn authCalls Error) :=
  (List.replicate 4 [.thread 0 none, .thread 1 none]).flatten

/-- After a third request has failed and its lock is over. -/
def unlocked : Pool authCalls Error Server Response :=
  (Pool.start ((guessers ["s1", "s2", "s3"]).map fun r => login (.plain .sqlite) "ip" r.1 r.2) .new).run
    Host.strict.machine (failedLogin 2)

theorem continues_of {H : Host} {p : Pool authCalls Error Server Response} {turn : Turn authCalls Error}
    (h : (p.calling turn).all (fun c => decide (turn.fault = none ∧ ¬ Unlocks H.lockout key p.state c)) =
      true) : Continues H key p turn := by
  intro c hc
  rw [hc, Option.all_some, decide_eq_true_eq] at h
  exact ⟨fun _ _ => h.1, h.2⟩

theorem overlapping_continues : (List.range 8).all (fun n => (overlapping[n]?).all fun turn =>
    ((unlocked.run Host.strict.machine (overlapping.take n)).calling turn).all fun c =>
      decide (turn.fault = none ∧ ¬ Unlocks Host.strict.lockout (lockoutKey "ip" "ann@a.b")
        (unlocked.run Host.strict.machine (overlapping.take n)).state c)) = true := by
  decide +kernel

theorem inFlight_overlapping (n : ℕ) :
    inFlight (unlocked.run Host.strict.machine (overlapping.take n)) ≤ 2 := by
  have hall : ∀ n ≤ 8, inFlight (unlocked.run Host.strict.machine (overlapping.take n)) ≤ 2 := by
    decide +kernel
  rcases Nat.le_total n 8 with hn | hn
  · exact hall n hn
  · rw [List.take_of_length_le hn]
    exact hall 8 le_rfl

theorem guesses_bounded_overlapping :
    (unlocked.run Host.strict.machine overlapping).tally Guesses ≤ unlocked.tally Guesses + 2 :=
  guesses_bounded .strict (.plain .sqlite) "ip" "ann@a.b" (guessers ["s1", "s2", "s3"]) .new
    (failedLogin 2) overlapping 2 rfl rfl (by
      intro r hr e he
      obtain ⟨sessionId, -, rfl⟩ := List.mem_map.mp hr
      rw [normalizeEmail_guesser] at he
      exact (Except.ok.inj he).symm) (by
      intro n turn hn
      have hlt : n < 8 := (List.getElem?_eq_some_iff.mp hn).1
      have hcontinues := List.all_eq_true.mp overlapping_continues n (List.mem_range.mpr hlt)
      rw [hn, Option.all_some] at hcontinues
      exact continues_of hcontinues) inFlight_overlapping

/-- Two requests that check the lock before either records its failure: with a threshold of one, and
no success and no time in between, both verify a password. And requests one after the other, a window
apart: with a threshold of three, a fourth is verified on a key that was never locked. -/
theorem guesses_exceed_threshold :
    let requests := ["s1", "s2", "s3", "s4"].map fun sessionId =>
      login (.plain .sqlite) "ip" (guesser sessionId).1 (guesser sessionId).2
    let p := (Pool.start requests Server.new).run Host.strict.machine
      (List.replicate 4 [.thread 0 none, .thread 1 none]).flatten
    let q := (Pool.start requests Server.new).run Host.plain.machine
      ([0, 1, 2, 3].map failedLogin).flatten
    (Host.strict.lockout.maxAttempts = 1 ∧ p.tally Guesses = 2 ∧
      p.state.instant = Server.new.instant) ∧
    Host.plain.lockout.maxAttempts = 3 ∧ q.tally Guesses = 4 ∧
      (q.state.loginGuard.get (lockoutKey "ip" "ann@a.b")).map Entry.level = some 0 := by
  decide +kernel

end Soika.Auth
