import Mathlib.Algebra.Order.Ring.Nat
import Mathlib.Tactic.Linarith
import Soika.Auth.RollingWindow

/-! # How long a lock lasts, and how long a locked caller is told to wait

The duration doubles with the level until the cap, and stays there. The wait that a locked check
reports is rounded up, so it ends with the first whole second at which the lock is over.
-/

namespace Soika.Auth

/-- The seconds of the cap are 64-bit, as those of every `Duration`. -/
def LockoutConfig.CapFits (config : LockoutConfig) : Prop := config.maxLockout / 1000000000 < 2 ^ 64

instance (config : LockoutConfig) : Decidable config.CapFits :=
  inferInstanceAs (Decidable (_ < _))

namespace LockoutConfig

variable {config : LockoutConfig}

/-- The factor of a level: a power of two while the shift stays within a `u32`. -/
def levelFactor (level : ℕ) : ℕ := if 31 ≤ level - 1 then 2 ^ 32 - 1 else 2 ^ (level - 1)

theorem levelFactor_mono {level level' : ℕ} (h : level ≤ level') :
    levelFactor level ≤ levelFactor level' := by
  unfold levelFactor
  split_ifs with hlow hhigh hhigh
  · exact le_rfl
  · omega
  · calc 2 ^ (level - 1) ≤ 2 ^ 30 := Nat.pow_le_pow_right (by decide) (by omega)
      _ ≤ 2 ^ 32 - 1 := by decide
  · exact Nat.pow_le_pow_right (by decide) (by omega)

/-- A product that is no `Duration` lies beyond the cap, so cutting it off changes nothing. -/
theorem lockoutDuration_eq (hcap : config.CapFits) (level : ℕ) :
    config.lockoutDuration level = min (config.baseLockout * levelFactor level) config.maxLockout := by
  change min ((checkedMul config.baseLockout (levelFactor level)).getD config.maxLockout)
    config.maxLockout = _
  unfold checkedMul
  split_ifs with hfits
  · rfl
  · have hbeyond : config.maxLockout ≤ config.baseLockout * levelFactor level := by
      refine le_of_lt (lt_of_not_ge fun hle => hfits ?_)
      exact lt_of_le_of_lt (Nat.div_le_div_right hle) hcap
    rw [Option.getD_none, min_self, min_eq_right hbeyond]

theorem lockoutDuration_le (config : LockoutConfig) (level : ℕ) :
    config.lockoutDuration level ≤ config.maxLockout := min_le_right _ _

theorem lockoutDuration_mono (hcap : config.CapFits) {level level' : ℕ} (h : level ≤ level') :
    config.lockoutDuration level ≤ config.lockoutDuration level' := by
  rw [lockoutDuration_eq hcap, lockoutDuration_eq hcap]
  exact min_le_min_right _ (Nat.mul_le_mul_left _ (levelFactor_mono h))

theorem lockoutDuration_double (hcap : config.CapFits) {level : ℕ} (h : level ≤ 31) :
    config.lockoutDuration level = min (config.baseLockout * 2 ^ (level - 1)) config.maxLockout := by
  rw [lockoutDuration_eq hcap, levelFactor, if_neg (by omega)]

end LockoutConfig

namespace LoginGuard

variable {config : LockoutConfig} {key : String} {now : ℕ} {before others : List (ℕ × Call)}

/-- The reported seconds reach the end of the lock, and one second less does not. -/
theorem secsUntil_bounds {until_ : ℕ} (h : now < until_) :
    until_ ≤ now + ofSecs (secsUntil now until_) ∧
      now + ofSecs (secsUntil now until_ - 1) < until_ := by
  unfold secsUntil ofSecs
  omega

theorem checked_of_room {entries : Entries} (hroom : entries.size < pruneThreshold) :
    checked key entries = entries.get key := by
  rw [checked, if_neg (Nat.not_le.mpr hroom), Option.or_none]

theorem lock_of_locked {entries : Entries} (hroom : entries.size < pruneThreshold) {secs : ℕ}
    (h : checkAt config key now entries = .locked secs) :
    config.enabled = true ∧ ∃ until_, (entries.get key).bind Entry.lockedUntil = some until_ ∧
      now < until_ ∧ secs = secsUntil now until_ := by
  by_cases henabled : config.enabled = true
  · refine ⟨henabled, ?_⟩
    rw [checkAt, if_pos henabled, checked_of_room hroom] at h
    cases hlock : (entries.get key).bind Entry.lockedUntil with
    | none =>
      rw [hlock] at h
      cases h
    | some until_ =>
      simp only [hlock] at h
      split at h
      · exact ⟨until_, rfl, ‹_›, (LockoutDecision.locked.inj h).symm⟩
      · cases h
  · rw [checkAt, if_neg henabled] at h
    cases h

/-- Calls that are no failure or success of a key leave its entry alone. -/
theorem get_run_others (henabled : config.enabled = true)
    (hfew : FewKeys (before ++ others))
    (hothers : ∀ c ∈ others, c.2 ≠ .failure key ∧ c.2 ≠ .success key) :
    (run config (before ++ others)).get key = (run config before).get key := by
  induction others generalizing before with
  | nil => rw [List.append_nil]
  | cons c others ih =>
    obtain ⟨hc, hrest⟩ := List.forall_mem_cons.mp hothers
    have hroom := @room_of_fewKeys config _ hfew before _ rfl
    rw [List.append_cons] at hfew ⊢
    rw [ih hfew hrest, run_snoc, get_step_other henabled hroom hc.1 hc.2]

/-- The checks of a key whose lock ends at an instant, while there is room. -/
theorem checkAt_of_lock (henabled : config.enabled = true) {entries : Entries}
    (hroom : entries.size < pruneThreshold) {until_ : ℕ}
    (hlock : (entries.get key).bind Entry.lockedUntil = some until_) :
    checkAt config key now entries =
      if now < until_ then .locked (secsUntil now until_) else .allowed := by
  rw [checkAt, if_pos henabled, checked_of_room hroom, hlock]

/-- A check that is locked, with no failure or success of its key from then on: the checks of the
key are locked until one second before the reported wait is over, and allowed from its end on. -/
theorem locked_until (hfew : FewKeys (before ++ others)) {secs : ℕ}
    (hlocked : checkAt config key now (run config before) = .locked secs)
    (hothers : ∀ c ∈ others, c.2 ≠ .failure key ∧ c.2 ≠ .success key) :
    (∀ later, later ≤ now + ofSecs (secs - 1) →
      (checkAt config key later (run config (before ++ others))).isLocked = true) ∧
    ∀ later, now + ofSecs secs ≤ later →
      checkAt config key later (run config (before ++ others)) = .allowed := by
  obtain ⟨henabled, until_, hlock, hnow, rfl⟩ := lock_of_locked (room_of_fewKeys hfew rfl) hlocked
  have hroom : (run config (before ++ others)).size < pruneThreshold :=
    room_of_fewKeys hfew (List.append_nil _).symm
  rw [← get_run_others henabled hfew hothers] at hlock
  obtain ⟨hreached, hbefore⟩ := secsUntil_bounds hnow
  constructor
  · intro later hlater
    rw [checkAt_of_lock henabled hroom hlock, if_pos (hlater.trans_lt hbefore)]
    rfl
  · intro later hlater
    rw [checkAt_of_lock henabled hroom hlock, if_neg (Nat.not_lt.mpr (hreached.trans hlater))]

/-- The run gets to its end, and the waits that its locked checks report are exact: with no failure or
success of the key from then on, its checks are locked until one second before the end of the wait,
and allowed from its end on. -/
def WaitsExactly (config : LockoutConfig) (calls : List (ℕ × Call)) : Prop :=
  ∃ entries', process config calls = some entries' ∧ ∀ before others entries key now secs,
    calls = before ++ others → process config before = some entries →
    checkAt config key now entries = .locked secs →
    (∀ c ∈ others, c.2 ≠ .failure key ∧ c.2 ≠ .success key) →
    (∀ later, later ≤ now + ofSecs (secs - 1) →
      (checkAt config key later entries').isLocked = true) ∧
    ∀ later, now + ofSecs secs ≤ later → checkAt config key later entries' = .allowed

theorem waitsExactly_of_process {calls : List (ℕ × Call)} (hfew : FewKeys calls)
    (h : process config calls = some (run config calls)) : WaitsExactly config calls := by
  refine ⟨_, h, ?_⟩
  rintro before others entries key now secs rfl hbefore hlocked hothers
  rw [← run_of_process hbefore] at hlocked
  exact locked_until hfew hlocked hothers

/--
The durations of the locks, and the waits that a locked check reports: the duration of a level is
the doubled base up to the cap, grows with the level and stays within the cap. A run has exact waits
if and only if no failure of it that locks a key finds the end of the lock beyond the last instant.
-/
theorem lock_durations (config : LockoutConfig) (hcap : config.CapFits) :
    (∀ level ≤ 31, config.lockoutDuration level =
      min (config.baseLockout * 2 ^ (level - 1)) config.maxLockout) ∧
    (∀ level level', level ≤ level' →
      config.lockoutDuration level ≤ config.lockoutDuration level') ∧
    (∀ level, config.lockoutDuration level ≤ config.maxLockout) ∧
    ∀ calls, FewKeys calls → (WaitsExactly config calls ↔
      ∀ before key now after entries, calls = before ++ (now, .failure key) :: after →
        process config before = some entries → Fits config key now entries) := by
  refine ⟨fun _ => LockoutConfig.lockoutDuration_double hcap,
    fun _ _ => LockoutConfig.lockoutDuration_mono hcap, config.lockoutDuration_le,
    fun calls hfew => ⟨?_, fun hfits => ?_⟩⟩
  · rintro ⟨entries', hprocess, -⟩ before key now after entries hcalls hbefore
    rw [← run_of_process hprocess] at hprocess
    exact process_iff.mp hprocess before _ after entries hcalls hbefore
  · refine waitsExactly_of_process hfew (process_iff.mpr ?_)
    rintro before ⟨now, key | key | key⟩ after entries hcalls hbefore
    · trivial
    · exact hfits before key now after entries hcalls hbefore
    · trivial

def minuteLock : List (ℕ × Call) :=
  List.replicate 3 (ofSecs 1, .failure "k") ++ [(ofSecs 2, .failure "j")]

theorem process_minuteLock : process threeAttempts minuteLock = some (run threeAttempts minuteLock) := by
  rfl

theorem lock_durations_minuteLock : threeAttempts.lockoutDuration 3 = ofSecs 240 ∧
    WaitsExactly threeAttempts minuteLock ∧
      checkAt threeAttempts "k" (ofSecs 1) (run threeAttempts minuteLock) = .locked 60 := by
  obtain ⟨hduration, -, -, hwaits⟩ := lock_durations threeAttempts (by decide)
  refine ⟨hduration 3 (by decide), (hwaits minuteLock (by unfold FewKeys; decide)).mpr ?_,
    by decide +kernel⟩
  intro before key now after entries hcalls hbefore
  exact process_iff.mp process_minuteLock before _ after entries hcalls hbefore

def endless : LockoutConfig where
  enabled := true
  maxAttempts := 1
  window := ofSecs 900
  baseLockout := ofSecs (2 ^ 63)
  maxLockout := ofSecs (2 ^ 63)
  maxAttempts_pos := Nat.one_pos
  base_le_max := le_rfl

/-- The settings can ask for locks that end after the last instant; the failure that makes one aborts. -/
theorem waits_not_exact : ¬ ∀ config : LockoutConfig, config.CapFits →
    ∀ calls, FewKeys calls → WaitsExactly config calls := by
  intro h
  obtain ⟨entries, hprocess, -⟩ := h endless (by decide) [(0, .failure "k")] (by unfold FewKeys; decide)
  have hnone : process endless [(0, .failure "k")] = none := rfl
  rw [hnone] at hprocess
  cases hprocess

end LoginGuard

end Soika.Auth
