import Soika.Auth.Lockout

/-! # The failure-counting window

The window of a key is one interval that starts with a failure and, once it has
elapsed, starts anew with the next one. Failures on both sides of its end are counted
apart, however close together they are.
-/

namespace Soika.Auth.LoginGuard

/-- `maxAttempts` failures of a key within less than a window, the first and the last of the calls
among them, while the key is not locked before any of them nor by any but the last. -/
structure Burst (config : LockoutConfig) (key : String) (entries : Entries)
    (burst : List (ℕ × Call)) (first last : ℕ) : Prop where
  start : burst.head? = some (first, .failure key)
  finish : burst.getLast? = some (last, .failure key)
  count : burst.countP (fun c => c.2 = .failure key) = config.maxAttempts
  noSuccess : ∀ c ∈ burst, c.2 ≠ .success key
  span : last - first < config.window
  unlocked : ∀ i (h : i < burst.length), burst[i].2 = .failure key →
    checkAt config key burst[i].1 (runFrom config entries (burst.take i)) = .allowed
  noLock : ∀ i (h : i < burst.length), i + 1 < burst.length → burst[i].2 = .failure key →
    checkAt config key burst[i].1 (runFrom config entries (burst.take (i + 1))) = .allowed

variable {config : LockoutConfig} {key : String}

/-- The start of the window in which a failure of the key is counted: that of its entry, unless it
has elapsed. -/
def windowStartAt (config : LockoutConfig) (key : String) (now : ℕ) (entries : Entries) : ℕ :=
  ((entryOf key now entries).roll config now).windowStart

theorem not_lockActive_of_allowed (henabled : config.enabled = true) {entries : Entries}
    (hroom : entries.size < pruneThreshold) {now : ℕ}
    (h : checkAt config key now entries = .allowed) :
    (entryOf key now entries).lockActive now = false := by
  have hchecked : checked key entries = entries.get key := by
    rw [checked, if_neg (by omega), Option.or_none]
  rw [checkAt, if_pos henabled, hchecked] at h
  unfold entryOf Entry.lockActive
  cases hget : entries.get key with
  | none => rfl
  | some e =>
    rw [hget, Option.bind_some] at h
    simp only [Option.getD_some]
    cases hlock : e.lockedUntil with
    | none => rfl
    | some until_ =>
      rw [hlock] at h
      dsimp only at h
      split at h
      · cases h
      · simpa using ‹¬ now < until_›

/-- Calls that are no success or failure of a key leave its entry alone. -/
theorem get_step_other (henabled : config.enabled = true) {entries : Entries}
    (hroom : entries.size < pruneThreshold) {c : ℕ × Call} (hfailure : c.2 ≠ .failure key)
    (hsuccess : c.2 ≠ .success key) : (step config entries c).get key = entries.get key := by
  obtain ⟨now, k | k | k⟩ := c
  · rfl
  · have hk : key ≠ k := fun h => hfailure (h ▸ rfl)
    exact (get_recorded_of_lt henabled hroom k key now).trans (if_neg hk)
  · have hk : key ≠ k := fun h => hsuccess (h ▸ rfl)
    exact (get_recordSuccess henabled k key entries).trans (if_neg hk)

theorem get_step_failure (henabled : config.enabled = true) {entries : Entries}
    (hroom : entries.size < pruneThreshold) {c : ℕ × Call} (hc : c.2 = .failure key) :
    (step config entries c).get key = some ((entryOf key c.1 entries).failed config c.1) := by
  obtain ⟨now, call⟩ := c
  subst hc
  exact (get_recorded_of_lt henabled hroom key key now).trans (if_pos rfl)

theorem getD_checkedMul_pos {base factor cap : ℕ} (hfactor : 0 < factor) (hbase : 0 < base)
    (hcap : 0 < cap) : 0 < (checkedMul base factor).getD cap := by
  unfold checkedMul
  split_ifs
  · exact Nat.mul_pos hbase hfactor
  · exact hcap

/-- A base of no length makes locks of no length, and every other base makes locks. -/
theorem lockoutDuration_pos_iff (level : ℕ) : 0 < config.lockoutDuration level ↔ 0 < config.baseLockout := by
  unfold LockoutConfig.lockoutDuration
  constructor
  · intro hpos
    by_contra hzero
    have hbase : config.baseLockout = 0 := by omega
    simp [hbase, checkedMul] at hpos
  · intro hbase
    have hcap := hbase.trans_le config.base_le_max
    refine lt_min (getD_checkedMul_pos ?_ hbase hcap) hcap
    split_ifs
    · decide
    · exact Nat.two_pow_pos _

/-- A failure of a key that is not locked locks it if and only if it reaches the threshold and locks
have a length. -/
theorem isLocked_recorded_iff (henabled : config.enabled = true) {entries : Entries}
    (hroom : entries.size < pruneThreshold) {now : ℕ}
    (hfree : checkAt config key now entries = .allowed) :
    (checkAt config key now (recorded config key now entries)).isLocked = true ↔
      (entryOf key now entries).Arms config now ∧ 0 < config.baseLockout := by
  have hactive := not_lockActive_of_allowed henabled hroom hfree
  have hchecked : checked key (recorded config key now entries) =
      some ((entryOf key now entries).failed config now) := by
    rw [checked, get_recorded_of_lt henabled hroom, if_pos rfl, Option.some_or]
  rw [checkAt, if_pos henabled, hchecked, Option.bind_some]
  by_cases harms : (entryOf key now entries).Arms config now
  · rw [Entry.failed_of_arms harms, and_iff_right harms,
      ← lockoutDuration_pos_iff (entryOf key now entries).nextLevel]
    simp only [Entry.armed, Nat.lt_add_right_iff_pos]
    split_ifs with hpos
    · exact iff_of_true rfl hpos
    · exact iff_of_false Bool.false_ne_true hpos
  · refine iff_of_false ?_ fun h => harms h.1
    rw [Entry.failed_of_not_arms harms, Entry.roll_lockedUntil]
    unfold Entry.lockActive at hactive
    cases hlock : (entryOf key now entries).lockedUntil with
    | none => exact Bool.false_ne_true
    | some until_ =>
      rw [hlock, Option.any_some, decide_eq_false_iff_not] at hactive
      simp [hactive, LockoutDecision.isLocked]

theorem not_arms_of_allowed (henabled : config.enabled = true) (hbase : 0 < config.baseLockout)
    {entries : Entries} (hroom : entries.size < pruneThreshold) {now : ℕ}
    (hfree : checkAt config key now entries = .allowed)
    (hafter : checkAt config key now (recorded config key now entries) = .allowed) :
    ¬ (entryOf key now entries).Arms config now := by
  intro harms
  have hlocked := (isLocked_recorded_iff henabled hroom hfree).mpr ⟨harms, hbase⟩
  rw [hafter] at hlocked
  cases hlocked

/-- The entry `j` failures after `start`: still in the window of `start`, with as many failures
more, or in a window that began later, with at most `j` failures. -/
def Counted (config : LockoutConfig) (first : ℕ) (start : Entry) (j : ℕ) (now : ℕ)
    (e : Entry) : Prop :=
  e.windowStart = start.windowStart ∧ e.failures = start.failures + j ∨
    first ≤ e.windowStart ∧ e.failures ≤ j ∧ config.window ≤ now - start.windowStart

theorem Counted.mono {first now now' : ℕ} {start e : Entry} {j : ℕ}
    (h : Counted config first start j now e) (hnow : now ≤ now') :
    Counted config first start j now' e := by
  refine h.imp_right fun ⟨hfirst, hfailures, helapsed⟩ => ⟨hfirst, hfailures, ?_⟩
  omega

/-- One more failure, which does not lock the key. -/
theorem Counted.failed {first now : ℕ} {start e : Entry} {j : ℕ}
    (h : Counted config first start j now e) (hfirst : first ≤ now)
    (harms : ¬ e.Arms config now) :
    Counted config first start (j + 1) now (e.failed config now) := by
  rw [Entry.failed_of_not_arms harms]
  unfold Entry.roll
  split_ifs with helapsed
  · rcases h with ⟨hstart, -⟩ | ⟨-, -, hwindow⟩
    · exact .inr ⟨hfirst, Nat.le_add_left .., hstart ▸ helapsed.2⟩
    · exact .inr ⟨hfirst, Nat.le_add_left .., hwindow⟩
  · rcases h with ⟨hstart, hfailures⟩ | ⟨hlater, hfailures, hwindow⟩
    · exact .inl ⟨hstart, by dsimp only; omega⟩
    · exact .inr ⟨hlater, by dsimp only; omega, hwindow⟩

/-- The failure that completes the threshold locks the key if and only if it comes before the
window of `start` has elapsed. -/
theorem Counted.arms_iff {first last : ℕ} {start e : Entry} {j : ℕ}
    (h : Counted config first start j last e) (hj : j + 2 = config.maxAttempts)
    (hstart : 0 < start.failures) (hspan : last - first < config.window)
    (hactive : e.lockActive last = false) :
    e.Arms config last ↔ last - start.windowStart < config.window := by
  unfold Entry.Arms Entry.roll
  rcases h with ⟨hsame, hfailures⟩ | ⟨hlater, hfailures, hwindow⟩
  · by_cases helapsed : config.window ≤ last - e.windowStart
    · rw [if_pos ⟨hactive, helapsed⟩]
      dsimp only
      omega
    · rw [if_neg fun hroll => helapsed hroll.2]
      omega
  · rw [if_neg fun hroll => absurd hroll.2 (by omega)]
    omega

section Run

variable {before burst : List (ℕ × Call)} {first last : ℕ}

theorem Burst.head (h : Burst config key (run config before) burst first last) :
    ∃ rest, burst = (first, .failure key) :: rest := by
  obtain ⟨rest, hrest⟩ := List.head?_eq_some_iff.mp h.start
  exact ⟨rest, hrest⟩

theorem room_in_burst (config : LockoutConfig) (hfew : FewKeys (before ++ burst)) (i : ℕ) :
    (runFrom config (run config before) (burst.take i)).size < pruneThreshold := by
  rw [run, ← runFrom_append]
  exact room_of_fewKeys hfew (by rw [List.append_assoc, List.take_append_drop])

def startEntry (config : LockoutConfig) (key : String) (before : List (ℕ × Call)) (first : ℕ) : Entry :=
  (entryOf key first (run config before)).failed config first

theorem take_succ_eq {i : ℕ} (hi : i < burst.length) :
    burst.take (i + 1) = burst.take i ++ [burst[i]] := List.take_succ_eq_append_getElem hi

/-- No failure of a burst but the last one reaches the threshold, where locks have a length. -/
theorem Burst.not_arms (henabled : config.enabled = true) (hbase : 0 < config.baseLockout)
    (hfew : FewKeys (before ++ burst)) (h : Burst config key (run config before) burst first last)
    {i : ℕ} (hi : i + 1 < burst.length) (hfailure : burst[i].2 = .failure key) :
    ¬ (entryOf key burst[i].1 (runFrom config (run config before) (burst.take i))).Arms config
      burst[i].1 := by
  have hfree := h.unlocked i (by omega) hfailure
  have hafter := h.noLock i (by omega) hi hfailure
  have hcall : burst[i] = (burst[i].1, .failure key) := Prod.ext rfl hfailure
  rw [take_succ_eq (by omega), runFrom_append, runFrom_cons, runFrom_nil, hcall, step] at hafter
  exact not_arms_of_allowed henabled hbase (room_in_burst config hfew i) hfree hafter

theorem Burst.counted (henabled : config.enabled = true) (hbase : 0 < config.baseLockout)
    (htimed : Timed (before ++ burst)) (hfew : FewKeys (before ++ burst))
    (h : Burst config key (run config before) burst first last) (i : ℕ) (hi : i + 1 < burst.length) :
    ∃ j e, (burst.take (i + 1)).countP (fun c => c.2 = .failure key) = j + 1 ∧
      (runFrom config (run config before) (burst.take (i + 1))).get key = some e ∧
      Counted config first (startEntry config key before first) j burst[i].1 e := by
  have hroom := room_in_burst config hfew
  obtain ⟨rest, hrest⟩ := h.head
  induction i with
  | zero =>
    refine ⟨0, startEntry config key before first, by simp [hrest], ?_, .inl ⟨rfl, rfl⟩⟩
    simp only [hrest, List.take_succ_cons, List.take_zero, runFrom_cons, runFrom_nil]
    exact get_step_failure henabled (hroom 0) rfl
  | succ i ih =>
    obtain ⟨j, e, hcount, hget, he⟩ := ih (by omega)
    have hsorted := (List.pairwise_append.mp htimed).2.1
    have hle : burst[i].1 ≤ burst[i + 1].1 :=
      List.pairwise_iff_getElem.mp hsorted i (i + 1) (by omega) (by omega) (by omega)
    have he := he.mono hle
    rw [take_succ_eq (show i + 1 < burst.length by omega), List.countP_append, hcount, runFrom_append]
    by_cases hfailure : burst[i + 1].2 = .failure key
    · have hentry : entryOf key burst[i + 1].1
          (runFrom config (run config before) (burst.take (i + 1))) = e := by
        rw [entryOf, hget, Option.getD_some]
      have harms := h.not_arms henabled hbase hfew hi hfailure
      rw [hentry] at harms
      have hfirst : first ≤ burst[i + 1].1 := by
        have := List.pairwise_iff_getElem.mp hsorted 0 (i + 1) (by omega) (by omega) (by omega)
        simpa only [hrest, List.getElem_cons_zero] using this
      refine ⟨j + 1, e.failed config burst[i + 1].1, by simp [hfailure], ?_, he.failed hfirst harms⟩
      rw [runFrom_cons, runFrom_nil, get_step_failure henabled (hroom _) hfailure, hentry]
    · refine ⟨j, e, by simp [hfailure], ?_, he⟩
      rw [runFrom_cons, runFrom_nil, get_step_other henabled (hroom _) hfailure, hget]
      exact h.noSuccess _ (List.getElem_mem _)

/-- The first failure of a longer burst does not lock the key. -/
theorem Burst.start_not_arms (henabled : config.enabled = true) (hbase : 0 < config.baseLockout)
    (hfew : FewKeys (before ++ burst)) (h : Burst config key (run config before) burst first last)
    (hlong : 1 < burst.length) : ¬ (entryOf key first (run config before)).Arms config first := by
  obtain ⟨rest, hrest⟩ := h.head
  have hfirst : burst[0] = (first, .failure key) := by simp [hrest]
  have harms := h.not_arms henabled hbase hfew hlong (by rw [hfirst])
  rw [hfirst] at harms
  exact harms

theorem Burst.last_counted (henabled : config.enabled = true) (hbase : 0 < config.baseLockout)
    (htimed : Timed (before ++ burst)) (hfew : FewKeys (before ++ burst))
    (h : Burst config key (run config before) burst first last) (hlong : 1 < burst.length) :
    ∃ j e, j + 2 = config.maxAttempts ∧
      entryOf key last (runFrom config (run config before) burst.dropLast) = e ∧
      Counted config first (startEntry config key before first) j last e ∧
      e.lockActive last = false := by
  obtain ⟨j, e, hcount, hget, he⟩ := h.counted henabled hbase htimed hfew (burst.length - 2) (by omega)
  have hlen : burst.length - 2 + 1 = burst.length - 1 := by omega
  have hlast : burst[burst.length - 1] = (last, .failure key) := by
    have := h.finish
    rwa [List.getLast?_eq_getElem?, List.getElem?_eq_getElem (by omega), Option.some.injEq] at this
  have hentry : entryOf key last (runFrom config (run config before) burst.dropLast) = e := by
    rw [List.dropLast_eq_take, ← hlen, entryOf, hget, Option.getD_some]
  refine ⟨j, e, ?_, hentry, ?_, ?_⟩
  · have hall := h.count
    have hsplit : burst = burst.take (burst.length - 2 + 1) ++ [(last, .failure key)] := by
      rw [hlen, ← hlast, ← List.take_succ_eq_append_getElem (by omega)]
      exact (List.take_of_length_le (by omega)).symm
    rw [hsplit, List.countP_append, hcount] at hall
    simpa using hall
  · have hsorted := (List.pairwise_append.mp htimed).2.1
    have := List.pairwise_iff_getElem.mp hsorted (burst.length - 2) (burst.length - 1) (by omega)
      (by omega) (by omega)
    rw [hlast] at this
    exact he.mono this
  · have hopen := h.unlocked (burst.length - 1) (by omega) (by rw [hlast])
    rw [hlast] at hopen
    have hactive := not_lockActive_of_allowed henabled (room_in_burst config hfew _) hopen
    rw [← List.dropLast_eq_take, hentry] at hactive
    exact hactive

/-- The last failure of a burst reaches the threshold if and only if it is recorded before the window
that counted the first one has elapsed. -/
theorem Burst.arms_iff (henabled : config.enabled = true) (hbase : 0 < config.baseLockout)
    (htimed : Timed (before ++ burst)) (hfew : FewKeys (before ++ burst))
    (h : Burst config key (run config before) burst first last) :
    (entryOf key last (runFrom config (run config before) burst.dropLast)).Arms config last ↔
      last - windowStartAt config key first (run config before) < config.window := by
  by_cases hlong : 1 < burst.length
  · obtain ⟨j, e, hj, rfl, he, hactive⟩ := h.last_counted henabled hbase htimed hfew hlong
    have hstart : startEntry config key before first = _ :=
      Entry.failed_of_not_arms (h.start_not_arms henabled hbase hfew hlong)
    have hpos : 0 < (startEntry config key before first).failures := by
      rw [hstart]
      exact Nat.succ_pos _
    have hwindow : (startEntry config key before first).windowStart =
        windowStartAt config key first (run config before) := by
      rw [hstart]
      rfl
    rw [← hwindow]
    exact he.arms_iff hj hpos h.span hactive
  · -- a burst of one failure: the threshold is one, and the window it is counted in has not elapsed
    obtain ⟨rest, hrest⟩ := h.head
    obtain rfl : rest = [] := by
      rw [hrest, List.length_cons] at hlong
      exact List.eq_nil_of_length_eq_zero (by omega)
    have hone : config.maxAttempts = 1 := by
      rw [← h.count, hrest]
      simp
    obtain rfl : first = last := by
      have := h.finish
      rw [hrest] at this
      simpa using this
    refine iff_of_true ?_ ?_
    · rw [Entry.Arms, hone]
      exact Nat.le_add_left ..
    · have hfree := h.unlocked 0 (by simp [hrest]) (by simp [hrest])
      simp only [hrest, List.getElem_cons_zero, List.take_zero, runFrom_nil] at hfree
      have hactive := not_lockActive_of_allowed henabled (by exact room_in_burst config hfew 0) hfree
      have hspan := h.span
      unfold windowStartAt Entry.roll
      split_ifs with helapsed
      · exact hspan
      · exact not_le.mp fun hwindow => helapsed ⟨hactive, hwindow⟩

/-- The last failure of a burst returns and leaves the key locked, if and only if it is recorded before
the window that counted the first one has elapsed, locks have a length, and the end of the lock is an
instant. -/
theorem burst_locks_iff {entries : Entries} (henabled : config.enabled = true)
    (htimed : Timed (before ++ burst)) (hfew : FewKeys (before ++ burst))
    (h : Burst config key (run config before) burst first last)
    (hentries : process config (before ++ burst.dropLast) = some entries) :
    (∃ after, recordFailureAt config key last entries = some after ∧
        (checkAt config key last after).isLocked = true) ↔
      last - windowStartAt config key first (run config before) < config.window ∧
        0 < config.baseLockout ∧ Fits config key last entries := by
  obtain rfl : runFrom config (run config before) burst.dropLast = entries := by
    rw [← run_of_process hentries, run, run, runFrom_append]
  have hroom := room_in_burst config hfew (burst.length - 1)
  have hfree : checkAt config key last (runFrom config (run config before) burst.dropLast) =
      .allowed := by
    have hne : burst ≠ [] := by
      obtain ⟨rest, hrest⟩ := h.head
      simp [hrest]
    have hpos := List.length_pos_of_ne_nil hne
    have hlast : burst[burst.length - 1] = (last, .failure key) := by
      have := h.finish
      rwa [List.getLast?_eq_getElem?, List.getElem?_eq_getElem (by omega), Option.some.injEq] at this
    have hopen := h.unlocked (burst.length - 1) (by omega) (by rw [hlast])
    rwa [hlast, ← List.dropLast_eq_take] at hopen
  rw [← List.dropLast_eq_take] at hroom
  have hlocked := isLocked_recorded_iff henabled hroom hfree
  rw [recordFailureAt_eq]
  constructor
  · rintro ⟨after, hafter, hlock⟩
    split_ifs at hafter with hfits
    obtain rfl := Option.some.inj hafter
    obtain ⟨harms, hbase⟩ := hlocked.mp hlock
    exact ⟨(h.arms_iff henabled hbase htimed hfew).mp harms, hbase, hfits⟩
  · rintro ⟨hwindow, hbase, hfits⟩
    refine ⟨_, if_pos hfits, hlocked.mpr ⟨?_, hbase⟩⟩
    exact (h.arms_iff henabled hbase htimed hfew).mpr hwindow

end Run

/-- Three failures within 151 seconds; the window that began 800 seconds before ends among them. -/
def straddling : List (ℕ × Call) :=
  [(ofSecs 800, .failure "k"), (ofSecs 950, .failure "k"), (ofSecs 951, .failure "k")]

theorem burst_straddling : Burst threeAttempts "k"
    (run threeAttempts [(ofSecs 0, .failure "k")]) straddling (ofSecs 800) (ofSecs 951) where
  start := rfl
  finish := rfl
  count := by decide
  noSuccess := by decide
  span := by decide
  unlocked := by decide
  noLock := by decide

theorem burst_not_locked : ¬ ∀ (config : LockoutConfig) (key : String)
    (before burst : List (ℕ × Call)) (first last : ℕ) (entries : Entries), config.enabled = true →
    Timed (before ++ burst) → FewKeys (before ++ burst) →
    Burst config key (run config before) burst first last →
    process config (before ++ burst.dropLast) = some entries →
    ∃ after, recordFailureAt config key last entries = some after ∧
      (checkAt config key last after).isLocked = true := by
  intro h
  obtain ⟨after, hafter, hlocked⟩ := h threeAttempts "k" [(ofSecs 0, .failure "k")] straddling
    (ofSecs 800) (ofSecs 951) _ rfl (by unfold Timed; decide) (by unfold FewKeys; decide)
    burst_straddling rfl
  obtain rfl := Option.some.inj hafter
  exact absurd hlocked (by decide)

def forgiven : List (ℕ × Call) := [(ofSecs 0, .failure "k"), (ofSecs 1, .success "k")]

/-- Three failures in the window of the first of them, among calls on another key. -/
def together : List (ℕ × Call) :=
  [(ofSecs 800, .failure "k"), (ofSecs 800, .failure "j"), (ofSecs 900, .check "k"),
    (ofSecs 950, .failure "k"), (ofSecs 951, .failure "k")]

theorem burst_together : Burst threeAttempts "k" (run threeAttempts forgiven) together (ofSecs 800)
    (ofSecs 951) where
  start := rfl
  finish := rfl
  count := by decide
  noSuccess := by decide
  span := by decide
  unlocked := by decide
  noLock := by decide

theorem burst_locks_iff_together :
    (∃ after, recordFailureAt threeAttempts "k" (ofSecs 951)
        (run threeAttempts (forgiven ++ together.dropLast)) = some after ∧
        (checkAt threeAttempts "k" (ofSecs 951) after).isLocked = true) ↔
      ofSecs 951 - windowStartAt threeAttempts "k" (ofSecs 800) (run threeAttempts forgiven) <
          threeAttempts.window ∧ 0 < threeAttempts.baseLockout ∧
        Fits threeAttempts "k" (ofSecs 951) (run threeAttempts (forgiven ++ together.dropLast)) :=
  burst_locks_iff rfl (by unfold Timed; decide) (by unfold FewKeys; decide) burst_together
    (by decide +kernel)

end Soika.Auth.LoginGuard
