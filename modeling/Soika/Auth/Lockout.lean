import Mathlib.Data.List.Dedup
import Mathlib.Data.List.Induction
import Soika.Library.OrdMap

/-! # Brute-force protection for password logins

A counter for each key guards every credential check. Failures accumulate over a
window; once they reach a threshold the key is locked, for a duration that doubles
with each lock up to a maximum. A successful login clears the key. The number of keys
is bounded: idle entries are dropped, and new keys share one entry when no room is left.
-/

namespace Soika.Auth

/-- `Duration::from_secs`: durations, and instants of the monotonic clock, in nanoseconds. -/
def ofSecs (secs : ℕ) : ℕ := secs * 1000000000

/-- `Instant + Duration`, which panics where the seconds of the sum are no `i64`. -/
def instantAdd (now d : ℕ) : Option ℕ :=
  if (now + d) / 1000000000 < 2 ^ 63 then some (now + d) else none

/-- The `LOGIN_LOCKOUT_*` settings; the parser of the environment refuses others. -/
structure LockoutConfig where
  enabled : Bool
  maxAttempts : ℕ
  window : ℕ
  baseLockout : ℕ
  maxLockout : ℕ
  maxAttempts_pos : 0 < maxAttempts
  base_le_max : baseLockout ≤ maxLockout

/-- Every failure locks for at least a minute; the window is 15 minutes. -/
def LoginGuard.oneAttempt : LockoutConfig where
  enabled := true
  maxAttempts := 1
  window := ofSecs 900
  baseLockout := ofSecs 60
  maxLockout := ofSecs 3600
  maxAttempts_pos := by decide
  base_le_max := by decide

def LoginGuard.threeAttempts : LockoutConfig where
  enabled := true
  maxAttempts := 3
  window := ofSecs 900
  baseLockout := ofSecs 60
  maxLockout := ofSecs 3600
  maxAttempts_pos := by decide
  base_le_max := by decide

/-- Above this many tracked keys, idle entries are dropped on write. -/
def pruneThreshold : ℕ := 10000

def overflowKey : String := "<overflow>"

inductive LockoutDecision where
  | allowed
  | locked (retryAfterSecs : ℕ)
  deriving DecidableEq

def LockoutDecision.isLocked : LockoutDecision → Bool
  | allowed => false
  | locked _ => true

structure Entry where
  failures : ℕ
  windowStart : ℕ
  lockedUntil : Option ℕ
  level : ℕ
  deriving DecidableEq

/-- `Duration::checked_mul`: seconds are 64-bit. -/
def checkedMul (d : ℕ) (factor : ℕ) : Option ℕ :=
  if d * factor / 1000000000 < 2 ^ 64 then some (d * factor) else none

/-- Exponential lockout duration for the given level. -/
def LockoutConfig.lockoutDuration (config : LockoutConfig) (level : ℕ) : ℕ :=
  let shift := level - 1
  let factor := if 31 ≤ shift then 2 ^ 32 - 1 else 2 ^ shift
  min ((checkedMul config.baseLockout factor).getD config.maxLockout) config.maxLockout

namespace Entry

def new (now : ℕ) : Entry := ⟨0, now, none, 0⟩

/-- Not locked, or the lock has elapsed, and the failure window has expired. -/
def isIdle (now window : ℕ) (e : Entry) : Bool :=
  e.lockedUntil.all (· ≤ now) && decide (window ≤ now - e.windowStart)

def lockActive (now : ℕ) (e : Entry) : Bool := e.lockedUntil.any (now < ·)

def Elapsed (config : LockoutConfig) (now : ℕ) (e : Entry) : Prop :=
  e.lockActive now = false ∧ config.window ≤ now - e.windowStart

instance (config : LockoutConfig) (now : ℕ) (e : Entry) : Decidable (e.Elapsed config now) :=
  inferInstanceAs (Decidable (_ ∧ _))

def roll (config : LockoutConfig) (now : ℕ) (e : Entry) : Entry :=
  if e.Elapsed config now then { e with failures := 0, windowStart := now } else e

def Arms (config : LockoutConfig) (now : ℕ) (e : Entry) : Prop :=
  config.maxAttempts ≤ (e.roll config now).failures + 1

instance (config : LockoutConfig) (now : ℕ) (e : Entry) : Decidable (e.Arms config now) :=
  inferInstanceAs (Decidable (_ ≤ _))

/-- The level of the next lock; it is a `u32`, which wraps. -/
def nextLevel (e : Entry) : ℕ := (e.level + 1) % 2 ^ 32

def arm (config : LockoutConfig) (now : ℕ) (e : Entry) : Option Entry :=
  (instantAdd now (config.lockoutDuration e.nextLevel)).map fun until_ =>
    ⟨0, now, some until_, e.nextLevel⟩

/-- What one failure does to the entry that tracks it, if it does not panic. -/
def fail (config : LockoutConfig) (now : ℕ) (e : Entry) : Option Entry :=
  if e.Arms config now then e.arm config now
  else some { e.roll config now with failures := (e.roll config now).failures + 1 }

/-- The next failure does not panic: if it locks, the end of the lock is an instant. -/
def Fits (config : LockoutConfig) (now : ℕ) (e : Entry) : Prop :=
  e.Arms config now → (now + config.lockoutDuration e.nextLevel) / 1000000000 < 2 ^ 63

instance (config : LockoutConfig) (now : ℕ) (e : Entry) : Decidable (e.Fits config now) :=
  inferInstanceAs (Decidable (_ → _))

/-- The lock of a failure that returns, with its end as an unbounded number. -/
def armed (config : LockoutConfig) (now : ℕ) (e : Entry) : Entry :=
  ⟨0, now, some (now + config.lockoutDuration e.nextLevel), e.nextLevel⟩

/-- The entry after a failure that returns. -/
def failed (config : LockoutConfig) (now : ℕ) (e : Entry) : Entry :=
  if e.Arms config now then e.armed config now
  else { e.roll config now with failures := (e.roll config now).failures + 1 }

variable {config : LockoutConfig} {now : ℕ} {e : Entry}

theorem roll_level : (e.roll config now).level = e.level := by
  unfold roll
  split <;> rfl

theorem roll_lockedUntil : (e.roll config now).lockedUntil = e.lockedUntil := by
  unfold roll
  split <;> rfl

theorem failed_of_arms (h : e.Arms config now) : e.failed config now = e.armed config now := if_pos h

theorem failed_of_not_arms (h : ¬ e.Arms config now) : e.failed config now =
    { e.roll config now with failures := (e.roll config now).failures + 1 } := if_neg h

theorem fail_eq : e.fail config now = if e.Fits config now then some (e.failed config now) else none := by
  by_cases harms : e.Arms config now
  · rw [fail, if_pos harms, failed_of_arms harms, arm, instantAdd]
    by_cases hend : (now + config.lockoutDuration e.nextLevel) / 1000000000 < 2 ^ 63
    · have hfits : e.Fits config now := fun _ => hend
      rw [if_pos hend, if_pos hfits]
      rfl
    · have hfits : ¬ e.Fits config now := fun h => hend (h harms)
      rw [if_neg hend, if_neg hfits]
      rfl
  · have hfits : e.Fits config now := fun h => absurd h harms
    rw [fail, if_neg harms, failed_of_not_arms harms, if_pos hfits]

end Entry

abbrev Entries := OrdMap String Entry

/-- Round the gap between `now` and `until` up to whole seconds, never below 1. -/
def secsUntil (now until_ : ℕ) : ℕ := max ((until_ - now + 999999999) / 1000000000) 1

/-- Build the lockout map key from a client IP and a normalized email. -/
def lockoutKey (ip email : String) : String := ip ++ "|" ++ email

namespace LoginGuard

section

variable (config : LockoutConfig)

/-- Clear all state for `key` after a successful login. -/
def recordSuccess (key : String) (entries : Entries) : Entries :=
  if config.enabled then entries.erase key else entries

/-- The entry that a check of `key` looks at. -/
def checked (key : String) (entries : Entries) : Option Entry :=
  (entries.get key).or (if pruneThreshold ≤ entries.size then entries.get overflowKey else none)

def checkAt (key : String) (now : ℕ) (entries : Entries) : LockoutDecision :=
  if config.enabled then
    match (checked key entries).bind Entry.lockedUntil with
    | some until_ => if now < until_ then .locked (secsUntil now until_) else .allowed
    | none => .allowed
  else .allowed

/-- The entries that stay when a failure finds the map full. -/
def prune (now : ℕ) (entries : Entries) : Entries :=
  if pruneThreshold ≤ entries.size then entries.retain fun e => !e.isIdle now config.window
  else entries

/-- New keys share an overflow budget once the map is full. -/
def trackedKey (key : String) (entries : Entries) : String :=
  if pruneThreshold ≤ entries.size ∧ entries.containsKey key = false then overflowKey else key

def entryOf (key : String) (now : ℕ) (entries : Entries) : Entry :=
  (entries.get key).getD (.new now)

/-- The entry that a failure of `key` is counted in, as it stands. -/
def failing (key : String) (now : ℕ) (entries : Entries) : Entry :=
  entryOf (trackedKey key (prune config now entries)) now (prune config now entries)

/-- Record a failure against an instant; a panic aborts the process. -/
def recordFailureAt (key : String) (now : ℕ) (entries : Entries) : Option Entries :=
  if config.enabled then
    ((failing config key now entries).fail config now).map
      ((prune config now entries).insert (trackedKey key (prune config now entries)))
  else some entries

def recorded (key : String) (now : ℕ) (entries : Entries) : Entries :=
  if config.enabled then
    (prune config now entries).insert (trackedKey key (prune config now entries))
      ((failing config key now entries).failed config now)
  else entries

/-- The failure does not panic. -/
def Fits (key : String) (now : ℕ) (entries : Entries) : Prop :=
  config.enabled = true → (failing config key now entries).Fits config now

instance (key : String) (now : ℕ) (entries : Entries) : Decidable (Fits config key now entries) :=
  inferInstanceAs (Decidable (_ → _))

/-- The calls on the guard. -/
inductive Call where
  | check (key : String)
  | failure (key : String)
  | success (key : String)
  deriving DecidableEq

def Call.key : Call → String
  | check key => key
  | failure key => key
  | success key => key

def execute (entries : Entries) : ℕ × Call → Option Entries
  | (_, .check _) => some entries
  | (now, .failure key) => recordFailureAt config key now entries
  | (_, .success key) => some (recordSuccess config key entries)

/-- A run of a new guard, unless one of the calls aborts the process. -/
def process (calls : List (ℕ × Call)) : Option Entries := calls.foldlM (execute config) .empty

/-- One call at an instant that returns. -/
def step (entries : Entries) : ℕ × Call → Entries
  | (_, .check _) => entries
  | (now, .failure key) => recorded config key now entries
  | (_, .success key) => recordSuccess config key entries

def runFrom (entries : Entries) (calls : List (ℕ × Call)) : Entries := calls.foldl (step config) entries

/-- A run of a new guard. -/
def run (calls : List (ℕ × Call)) : Entries := runFrom config .empty calls

end

/-- The instants of the calls do not decrease. -/
def Timed (calls : List (ℕ × Call)) : Prop := calls.Pairwise fun a b => a.1 ≤ b.1

variable {config : LockoutConfig}

@[simp] theorem runFrom_nil (entries : Entries) : runFrom config entries [] = entries := rfl

@[simp] theorem runFrom_cons (entries : Entries) (c : ℕ × Call) (calls : List (ℕ × Call)) :
    runFrom config entries (c :: calls) = runFrom config (step config entries c) calls := rfl

theorem runFrom_append (entries : Entries) (calls calls' : List (ℕ × Call)) :
    runFrom config entries (calls ++ calls') = runFrom config (runFrom config entries calls) calls' :=
  List.foldl_append ..

theorem run_snoc (calls : List (ℕ × Call)) (c : ℕ × Call) :
    run config (calls ++ [c]) = step config (run config calls) c :=
  runFrom_append ..

/-- A failure of `key` arms the lock of its own entry. -/
def Locks (config : LockoutConfig) (key : String) (now : ℕ) (entries : Entries) : Prop :=
  trackedKey key (prune config now entries) = key ∧ (failing config key now entries).Arms config now

instance (config : LockoutConfig) (key : String) (now : ℕ) (entries : Entries) :
    Decidable (Locks config key now entries) :=
  inferInstanceAs (Decidable (_ ∧ _))

theorem recordFailureAt_eq (key : String) (now : ℕ) (entries : Entries) :
    recordFailureAt config key now entries =
      if Fits config key now entries then some (recorded config key now entries) else none := by
  unfold recordFailureAt recorded
  by_cases henabled : config.enabled = true
  · rw [if_pos henabled, if_pos henabled, Entry.fail_eq]
    by_cases hfits : (failing config key now entries).Fits config now
    · have hcall : Fits config key now entries := fun _ => hfits
      rw [if_pos hfits, if_pos hcall]
      rfl
    · have hcall : ¬ Fits config key now entries := fun h => hfits (h henabled)
      rw [if_neg hfits, if_neg hcall]
      rfl
  · have hcall : Fits config key now entries := fun h => absurd h henabled
    rw [if_neg henabled, if_neg henabled, if_pos hcall]

def Returns (config : LockoutConfig) (entries : Entries) : ℕ × Call → Prop
  | (now, .failure key) => Fits config key now entries
  | _ => True

theorem execute_eq_some_iff {entries entries' : Entries} {c : ℕ × Call} :
    execute config entries c = some entries' ↔
      Returns config entries c ∧ step config entries c = entries' := by
  obtain ⟨now, key | key | key⟩ := c
  · exact Option.some_inj.trans (iff_of_eq (true_and _)).symm
  · rw [execute, recordFailureAt_eq, Returns, step]
    split_ifs with hfits
    · exact Option.some_inj.trans (and_iff_right hfits).symm
    · exact iff_of_false (fun h => by cases h) fun h => hfits h.1
  · exact Option.some_inj.trans (iff_of_eq (true_and _)).symm

theorem process_snoc (calls : List (ℕ × Call)) (c : ℕ × Call) :
    process config (calls ++ [c]) = (process config calls).bind fun entries => execute config entries c := by
  simp [process, List.foldlM_append, Option.bind_eq_bind]

theorem run_of_process {calls : List (ℕ × Call)} {entries : Entries}
    (h : process config calls = some entries) : run config calls = entries := by
  induction calls using List.reverseRecOn generalizing entries with
  | nil => exact Option.some.inj h
  | append_singleton calls c ih =>
    rw [process_snoc, Option.bind_eq_some_iff] at h
    obtain ⟨entries', hcalls, hc⟩ := h
    rw [run_snoc, ih hcalls]
    exact (execute_eq_some_iff.mp hc).2

theorem process_of_append {before after : List (ℕ × Call)} {entries : Entries}
    (h : process config (before ++ after) = some entries) :
    process config before = some (run config before) := by
  rw [process, List.foldlM_append] at h
  obtain ⟨entries', hbefore, -⟩ := Option.bind_eq_some_iff.mp h
  rw [run_of_process hbefore]
  exact hbefore

/-- A run gets to its end if and only if each of its calls returns. -/
theorem process_iff {calls : List (ℕ × Call)} : process config calls = some (run config calls) ↔
    ∀ before c after entries, calls = before ++ c :: after → process config before = some entries →
      Returns config entries c := by
  constructor
  · rintro h before c after entries rfl hentries
    rw [List.append_cons] at h
    have hc := process_of_append h
    rw [process_snoc, hentries] at hc
    exact (execute_eq_some_iff.mp hc).1
  · intro hreturns
    induction calls using List.reverseRecOn with
    | nil => rfl
    | append_singleton calls c ih =>
      have hcalls := ih fun before d after entries hsplit =>
        hreturns before d (after ++ [c]) entries (by rw [hsplit, List.append_assoc, List.cons_append])
      rw [process_snoc, hcalls, run_snoc]
      exact execute_eq_some_iff.mpr ⟨hreturns calls c [] _ rfl hcalls, rfl⟩

theorem get_recordSuccess (henabled : config.enabled = true) (key k : String) (entries : Entries) :
    (recordSuccess config key entries).get k = if k = key then none else entries.get k := by
  rw [recordSuccess, if_pos henabled, OrdMap.get_erase]

theorem get_recorded (henabled : config.enabled = true) (key k : String) (now : ℕ)
    (entries : Entries) : (recorded config key now entries).get k =
      if k = trackedKey key (prune config now entries) then
        some ((failing config key now entries).failed config now)
      else (prune config now entries).get k := by
  rw [recorded, if_pos henabled, OrdMap.get_insert]

theorem prune_of_lt {entries : Entries} (h : entries.size < pruneThreshold) (now : ℕ) :
    prune config now entries = entries := if_neg (by omega)

theorem trackedKey_of_lt {entries : Entries} (h : entries.size < pruneThreshold) (key : String) :
    trackedKey key entries = key := if_neg fun hfull => absurd hfull.1 (by omega)

theorem trackedKey_eq_or (key : String) (entries : Entries) :
    trackedKey key entries = key ∨ trackedKey key entries = overflowKey := by
  unfold trackedKey
  split
  · exact .inr rfl
  · exact .inl rfl

/-- While there is room every key keeps its own entry. -/
theorem failing_of_lt {entries : Entries} (h : entries.size < pruneThreshold) (key : String)
    (now : ℕ) : failing config key now entries = entryOf key now entries := by
  rw [failing, prune_of_lt h, trackedKey_of_lt h]

theorem get_recorded_of_lt (henabled : config.enabled = true) {entries : Entries}
    (h : entries.size < pruneThreshold) (key k : String) (now : ℕ) :
    (recorded config key now entries).get k =
      if k = key then some ((entryOf key now entries).failed config now) else entries.get k := by
  rw [get_recorded henabled, failing_of_lt h, prune_of_lt h, trackedKey_of_lt h]

theorem get_prune (now : ℕ) (entries : Entries) (k : String) :
    (prune config now entries).get k = (entries.get k).filter fun e =>
      decide (entries.size < pruneThreshold) || !e.isIdle now config.window := by
  unfold prune
  split_ifs with h
  · rw [OrdMap.get_retain]
    simp [not_lt.mpr h]
  · cases entries.get k <;> simp [not_le.mp h, Option.filter]

structure Bounded (entries : Entries) : Prop where
  size_le : entries.size ≤ pruneThreshold + 1
  overflow : pruneThreshold < entries.size → entries.containsKey overflowKey = true

theorem Bounded.empty : Bounded .empty := ⟨Nat.zero_le _, fun h => absurd h (Nat.not_lt_zero _)⟩

theorem Bounded.of_le {entries : Entries} (h : entries.size ≤ pruneThreshold) : Bounded entries :=
  ⟨Nat.le_succ_of_le h, fun hlt => absurd h (by omega)⟩

theorem Bounded.filter {entries entries' : Entries} (h : Bounded entries)
    {p : String × Entry → Bool} (hp : entries'.entries = entries.entries.filter p) :
    Bounded entries' := by
  have hle : entries'.size ≤ entries.size := by
    rw [OrdMap.size, hp]
    exact List.length_filter_le ..
  refine ⟨hle.trans h.size_le, fun hlt => ?_⟩
  have hsize : entries.size ≤ entries'.size := by
    have := h.size_le
    omega
  have heq : entries' = entries := by
    refine OrdMap.ext (hp.trans (List.filter_eq_self.mpr fun e he => ?_))
    refine List.length_filter_eq_length_iff.mp ?_ e he
    rw [← hp]
    exact le_antisymm hle hsize
  rw [heq] at hlt ⊢
  exact h.overflow hlt

theorem Bounded.recordSuccess {entries : Entries} (h : Bounded entries) (key : String) :
    Bounded (recordSuccess config key entries) := by
  unfold LoginGuard.recordSuccess
  split_ifs
  · exact h.filter rfl
  · exact h

theorem Bounded.prune {entries : Entries} (h : Bounded entries) (now : ℕ) :
    Bounded (prune config now entries) := by
  unfold LoginGuard.prune
  split_ifs
  · exact h.filter rfl
  · exact h

/-- A failure adds the overflow entry at most, once the map is full. -/
theorem Bounded.insertTracked {entries : Entries} (h : Bounded entries) (key : String) (e : Entry) :
    Bounded (entries.insert (trackedKey key entries) e) := by
  have hkeep : ∀ k, entries.containsKey overflowKey = true →
      (entries.insert k e).containsKey overflowKey = true := by
    intro k hk
    rw [OrdMap.containsKey, OrdMap.get_insert]
    split_ifs
    · rfl
    · exact hk
  by_cases hfull : pruneThreshold ≤ entries.size
  · cases hkey : entries.containsKey key with
    | true =>
      have htracked : trackedKey key entries = key := if_neg (by simp [hkey])
      rw [htracked]
      have hsize := OrdMap.size_insert_old hkey e
      exact ⟨hsize ▸ h.size_le, fun hlt => hkeep key (h.overflow (hsize ▸ hlt))⟩
    | false =>
      have htracked : trackedKey key entries = overflowKey := if_pos ⟨hfull, hkey⟩
      rw [htracked]
      refine ⟨?_, fun _ => by simp [OrdMap.containsKey, OrdMap.get_insert]⟩
      cases hover : entries.containsKey overflowKey with
      | true => exact (OrdMap.size_insert_old hover e) ▸ h.size_le
      | false =>
        have : entries.size ≤ pruneThreshold := not_lt.mp fun hlt => by
          rw [h.overflow hlt] at hover
          cases hover
        have := OrdMap.size_insert_le entries overflowKey e
        omega
  · refine .of_le ?_
    have := OrdMap.size_insert_le entries (trackedKey key entries) e
    omega

theorem Bounded.step {entries : Entries} (h : Bounded entries) (c : ℕ × Call) :
    Bounded (step config entries c) := by
  obtain ⟨now, key | key | key⟩ := c
  · exact h
  · unfold LoginGuard.step recorded
    split_ifs
    · exact (h.prune now).insertTracked key _
    · exact h
  · exact h.recordSuccess key

theorem Bounded.runFrom {entries : Entries} (h : Bounded entries) (calls : List (ℕ × Call)) :
    Bounded (runFrom config entries calls) := by
  induction calls generalizing entries with
  | nil => exact h
  | cons c calls ih => exact ih (h.step c)

/-- The calls are on fewer keys than the pruning threshold. -/
def FewKeys (calls : List (ℕ × Call)) : Prop :=
  (calls.map fun c => c.2.key).dedup.length < pruneThreshold

/-- All tracked keys are among `keys`. -/
def Within (keys : List String) (entries : Entries) : Prop := ∀ e ∈ entries.entries, e.1 ∈ keys

theorem Within.empty (keys : List String) : Within keys .empty :=
  fun _ he => absurd he List.not_mem_nil

theorem Within.size_le {keys : List String} {entries : Entries} (h : Within keys entries) :
    entries.size ≤ keys.length := by
  have hnodup : (entries.entries.map Prod.fst).Nodup :=
    List.pairwise_map.mpr (entries.sorted.imp fun h => ne_of_lt h)
  have hsub : entries.entries.map Prod.fst ⊆ keys := by
    intro k hk
    obtain ⟨e, he, rfl⟩ := List.mem_map.mp hk
    exact h e he
  have := hnodup.length_le_of_subset hsub
  rwa [List.length_map] at this

theorem Within.step {keys : List String} (hfew : keys.length < pruneThreshold) {entries : Entries}
    (h : Within keys entries) {c : ℕ × Call} (hc : c.2.key ∈ keys) :
    Within keys (step config entries c) := by
  have hroom : entries.size < pruneThreshold := h.size_le.trans_lt hfew
  obtain ⟨now, key | key | key⟩ := c
  · exact h
  · simp only [LoginGuard.step, recorded, prune_of_lt hroom, trackedKey_of_lt hroom]
    split_ifs
    · intro e he
      rcases OrdMap.mem_insert_iff.mp he with rfl | ⟨he, -⟩
      · exact hc
      · exact h e he
    · exact h
  · simp only [LoginGuard.step, recordSuccess]
    split_ifs
    · exact fun e he => h e (List.mem_of_mem_filter he)
    · exact h

theorem Within.runFrom {keys : List String} (hfew : keys.length < pruneThreshold) {entries : Entries}
    (h : Within keys entries) {calls : List (ℕ × Call)} (hcalls : ∀ c ∈ calls, c.2.key ∈ keys) :
    Within keys (runFrom config entries calls) := by
  induction calls generalizing entries with
  | nil => exact h
  | cons c calls ih =>
    obtain ⟨hc, hcalls⟩ := List.forall_mem_cons.mp hcalls
    exact ih (h.step hfew hc) hcalls

theorem room_of_fewKeys {calls : List (ℕ × Call)} (hfew : FewKeys calls)
    {before after : List (ℕ × Call)} (hcalls : calls = before ++ after) :
    (run config before).size < pruneThreshold := by
  refine lt_of_le_of_lt (Within.size_le (Within.runFrom hfew (.empty _) fun c hc => ?_)) hfew
  exact List.mem_dedup.mpr (List.mem_map_of_mem (by simp [hcalls, hc]))

end LoginGuard

end Soika.Auth
