import Mathlib.Data.List.Induction
import Mathlib.Logic.Function.Basic
import Soika.Auth.Lockout

/-! # Escalation of locks

Each lock of a key is one level above its previous one, until a success. The level is
kept in the entry of the key, so it lives as long as the entry does: an idle entry that
goes when the map is full takes its level along.
-/

namespace Soika.Auth.LoginGuard

/-- The entries, with the level of the last lock of each key since its last success. -/
structure Observed where
  entries : Entries
  lastLevel : String → ℕ

def Observed.new : Observed := ⟨.empty, fun _ => 0⟩

def levelOf (key : String) (entries : Entries) : ℕ := ((entries.get key).map Entry.level).getD 0

variable (config : LockoutConfig)

def Observed.call (o : Observed) (c : ℕ × Call) : Observed where
  entries := step config o.entries c
  lastLevel :=
    match c with
    | (_, .check _) => o.lastLevel
    | (now, .failure key) =>
      if Locks config key now o.entries then
        Function.update o.lastLevel key (levelOf key (step config o.entries c))
      else o.lastLevel
    | (_, .success key) => Function.update o.lastLevel key 0

def Observed.run (calls : List (ℕ × Call)) : Observed := calls.foldl (Observed.call config) .new

/-- If the call arms the lock of a key of its own, it is one level above the lock before. -/
def Escalates (o : Observed) : ℕ × Call → Prop
  | (now, .failure key) => key ≠ overflowKey → Locks config key now o.entries →
      levelOf key (recorded config key now o.entries) = o.lastLevel key + 1
  | _ => True

/-- The call drops no entry that has a level, and counts no level beyond a `u32`. -/
def KeepsLevels (entries : Entries) : ℕ × Call → Prop
  | (now, .failure key) =>
      (pruneThreshold ≤ entries.size → ∀ e ∈ entries.entries, e.2.isIdle now config.window = true →
        e.2.level = 0) ∧ levelOf key entries + 1 < 2 ^ 32
  | _ => True

variable {config}

theorem Observed.run_snoc (calls : List (ℕ × Call)) (c : ℕ × Call) :
    Observed.run config (calls ++ [c]) = (Observed.run config calls).call config c :=
  List.foldl_append ..

theorem Observed.run_entries (calls : List (ℕ × Call)) :
    (Observed.run config calls).entries = LoginGuard.run config calls := by
  suffices h : ∀ o : Observed, (calls.foldl (Observed.call config) o).entries =
      runFrom config o.entries calls from h .new
  induction calls with
  | nil => exact fun o => rfl
  | cons c calls ih => exact fun o => ih _

/-- The entry of a key has the level of its last lock, and a key without an entry has none. -/
def Observed.Sound (o : Observed) : Prop :=
  ∀ key, key ≠ overflowKey → levelOf key o.entries = o.lastLevel key

theorem Observed.Sound.new : Observed.new.Sound := fun _ _ => rfl

/-- Without levels among the idle entries, none is lost when the map is pruned. -/
theorem levelOf_prune {entries : Entries} {now : ℕ} (h : pruneThreshold ≤ entries.size →
    ∀ e ∈ entries.entries, e.2.isIdle now config.window = true → e.2.level = 0) (key : String) :
    levelOf key (prune config now entries) = levelOf key entries := by
  unfold levelOf
  rw [get_prune]
  cases hget : entries.get key with
  | none => rfl
  | some e =>
    by_cases hroom : entries.size < pruneThreshold
    · simp [Option.filter, hroom]
    · cases hidle : e.isIdle now config.window with
      | false => simp [Option.filter, hidle]
      | true =>
        have hlevel : e.level = 0 := h (not_lt.mp hroom) _ (OrdMap.get_eq_some_iff.mp hget) hidle
        simp [Option.filter, hroom, hidle, hlevel]

theorem entryOf_level (key : String) (now : ℕ) (entries : Entries) :
    (entryOf key now entries).level = levelOf key entries := by
  unfold entryOf levelOf
  cases entries.get key <;> rfl

theorem failed_level (now : ℕ) (e : Entry) : (e.failed config now).level =
    if e.Arms config now then (e.level + 1) % 2 ^ 32 else e.level := by
  split_ifs with harms
  · rw [Entry.failed_of_arms harms]
    rfl
  · rw [Entry.failed_of_not_arms harms]
    exact Entry.roll_level

/-- The levels after a failure that drops none: only a lock of the key itself adds one. -/
theorem levelOf_recorded (henabled : config.enabled = true) {entries : Entries} {now : ℕ}
    {key : String} (hkeep : KeepsLevels config entries (now, .failure key)) {k : String}
    (hk : k ≠ overflowKey) : levelOf k (recorded config key now entries) =
      if k = key ∧ Locks config key now entries then levelOf k entries + 1
      else levelOf k entries := by
  obtain ⟨hidle, hlevel⟩ := hkeep
  have hprune := levelOf_prune hidle
  by_cases htracked : k = trackedKey key (prune config now entries)
  · obtain rfl : k = key := by
      rcases trackedKey_eq_or key (prune config now entries) with h | h
      · rw [htracked, h]
      · exact absurd (htracked.trans h) hk
    have hfailing : (failing config k now entries).level = levelOf k entries := by
      rw [failing, ← htracked, entryOf_level, hprune]
    rw [levelOf, get_recorded henabled, if_pos htracked, Option.map_some, Option.getD_some,
      failed_level, hfailing, Nat.mod_eq_of_lt hlevel]
    simp [Locks, ← htracked]
  · rw [levelOf, get_recorded henabled, if_neg htracked, ← hprune k, if_neg]
    · rfl
    · rintro ⟨rfl, hlocks⟩
      exact htracked hlocks.1.symm

theorem levelOf_recordSuccess (henabled : config.enabled = true) (key k : String)
    (entries : Entries) :
    levelOf k (recordSuccess config key entries) = if k = key then 0 else levelOf k entries := by
  rw [levelOf, get_recordSuccess henabled]
  split_ifs <;> rfl

theorem Observed.Sound.escalates (henabled : config.enabled = true) {o : Observed} (h : o.Sound)
    {c : ℕ × Call} (hkeep : KeepsLevels config o.entries c) : Escalates config o c := by
  obtain ⟨now, key | key | key⟩ := c
  · trivial
  · intro hkey hlocks
    rw [levelOf_recorded henabled hkeep hkey, if_pos ⟨rfl, hlocks⟩, h key hkey]
  · trivial

theorem Observed.Sound.call (henabled : config.enabled = true) {o : Observed} (h : o.Sound)
    {c : ℕ × Call} (hkeep : KeepsLevels config o.entries c) : (o.call config c).Sound := by
  obtain ⟨now, key | key | key⟩ := c
  · exact h
  · intro k hk
    simp only [Observed.call, step]
    rw [levelOf_recorded henabled hkeep hk]
    by_cases hlocks : Locks config key now o.entries
    · rw [if_pos hlocks]
      by_cases hkey : k = key
      · subst hkey
        rw [if_pos ⟨rfl, hlocks⟩, Function.update_self,
          levelOf_recorded henabled hkeep hk, if_pos ⟨rfl, hlocks⟩]
      · rw [if_neg fun hboth => hkey hboth.1, Function.update_of_ne hkey, h k hk]
    · rw [if_neg fun hboth => hlocks hboth.2, if_neg hlocks, h k hk]
  · intro k hk
    simp only [Observed.call, step]
    rw [levelOf_recordSuccess henabled]
    by_cases hkey : k = key
    · rw [if_pos hkey, hkey, Function.update_self]
    · rw [if_neg hkey, Function.update_of_ne hkey, h k hk]

theorem Observed.Sound.run (henabled : config.enabled = true) {calls : List (ℕ × Call)}
    (hkeep : ∀ before c after, calls = before ++ c :: after →
      KeepsLevels config (LoginGuard.run config before) c) : (Observed.run config calls).Sound := by
  induction calls using List.reverseRecOn with
  | nil => exact .new
  | append_singleton calls c ih =>
    rw [Observed.run_snoc]
    have hlast := hkeep calls c [] rfl
    rw [← Observed.run_entries] at hlast
    refine (ih fun before d after hcalls => ?_).call henabled hlast
    exact hkeep before d (after ++ [c]) (by rw [hcalls]; simp)

/-- The number of tracked keys is bounded in every run. In a run that drops no entry with a level,
each new lock of a key of its own is one level above its previous lock since its last success. -/
theorem locks_escalate (henabled : config.enabled = true) (calls : List (ℕ × Call)) :
    (run config calls).size ≤ pruneThreshold + 1 ∧
      ((∀ before c after, calls = before ++ c :: after →
          KeepsLevels config (run config before) c) →
        ∀ before c after, calls = before ++ c :: after →
          Escalates config (Observed.run config before) c) := by
  refine ⟨(Bounded.empty.runFrom calls).size_le, fun hkeep before c after hcalls => ?_⟩
  have hsound : (Observed.run config before).Sound := .run henabled fun before' d after' hbefore =>
    hkeep before' d (after' ++ c :: after) (by rw [hcalls, hbefore]; simp)
  refine hsound.escalates henabled ?_
  rw [Observed.run_entries]
  exact hkeep before c after hcalls

def floodKey (i : ℕ) : String := String.ofList (List.replicate (i + 2) 'x')

theorem floodKey_inj {i j : ℕ} (h : floodKey i = floodKey j) : i = j := by
  have := congrArg List.length (String.ofList_injective h)
  simpa using this

theorem floodKey_ne (i : ℕ) : floodKey i ≠ "k" := by
  intro h
  have := congrArg List.length (String.ofList_injective (h : floodKey i = String.ofList ['k']))
  simp at this

/-- One failure for each of `n` keys, a window after the start. -/
def flood (n : ℕ) : List (ℕ × Call) :=
  (List.range n).map fun i => (ofSecs 900, .failure (floodKey i))

theorem flood_succ (n : ℕ) : flood (n + 1) = flood n ++ [(ofSecs 900, .failure (floodKey n))] := by
  simp [flood, List.range_succ]

/-- While there is room each key of the flood gets an entry, and the others keep theirs. -/
theorem runFrom_flood {entries : Entries} (hnew : ∀ i, entries.get (floodKey i) = none) {n : ℕ}
    (hroom : entries.size + n ≤ pruneThreshold) :
    (runFrom oneAttempt entries (flood n)).size = entries.size + n ∧
      ∀ k, (∀ i < n, k ≠ floodKey i) →
        (runFrom oneAttempt entries (flood n)).get k = entries.get k := by
  induction n with
  | zero => exact ⟨rfl, fun _ _ => rfl⟩
  | succ n ih =>
    obtain ⟨hsize, hget⟩ := ih (by omega)
    have hlt : (runFrom oneAttempt entries (flood n)).size < pruneThreshold := by omega
    have hnone : (runFrom oneAttempt entries (flood n)).get (floodKey n) = none := by
      rw [hget _ fun i hi h => absurd (floodKey_inj h) (by omega), hnew]
    rw [flood_succ, runFrom_append, runFrom_cons, runFrom_nil]
    refine ⟨?_, fun k hk => ?_⟩
    · rw [step, recorded, if_pos (show oneAttempt.enabled = true from rfl), prune_of_lt hlt, trackedKey_of_lt hlt,
        OrdMap.size_insert_new hnone, hsize]
      rfl
    · rw [step, get_recorded_of_lt rfl hlt, if_neg (hk n (by omega)),
        hget k fun i hi => hk i (by omega)]

theorem lastLevel_flood (n : ℕ) (o : Observed) :
    ((flood n).foldl (Observed.call oneAttempt) o).lastLevel "k" = o.lastLevel "k" := by
  induction n with
  | zero => rfl
  | succ n ih =>
    rw [flood_succ, List.foldl_append, ← ih]
    simp only [List.foldl_cons, List.foldl_nil, Observed.call]
    split
    · exact Function.update_of_ne (floodKey_ne n).symm _ _
    · rfl

/-- A lock of "k", then a flood after the lock and the window have elapsed. -/
def flooded (n : ℕ) : List (ℕ × Call) := [(0, .failure "k")] ++ flood n

theorem run_flooded {n : ℕ} (hn : n < pruneThreshold) : (run oneAttempt (flooded n)).size = n + 1 ∧
    (run oneAttempt (flooded n)).get "k" = some ⟨0, 0, some (ofSecs 60), 1⟩ := by
  have hfirst : runFrom oneAttempt .empty [(0, .failure "k")] =
      ⟨[("k", ⟨0, 0, some (ofSecs 60), 1⟩)], List.pairwise_singleton _ _⟩ := rfl
  have hnew : ∀ i, (runFrom oneAttempt .empty [(0, .failure "k")]).get (floodKey i) = none := by
    intro i
    rw [hfirst]
    simp [OrdMap.get, (floodKey_ne i).symm]
  have hone : (runFrom oneAttempt .empty [(0, .failure "k")]).size = 1 := by
    rw [hfirst]
    rfl
  obtain ⟨hsize, hget⟩ := runFrom_flood hnew (n := n) (by omega)
  rw [run, flooded, runFrom_append]
  refine ⟨by omega, (hget "k" fun i _ => (floodKey_ne i).symm).trans ?_⟩
  rw [hfirst]
  rfl

theorem timed_flooded (n : ℕ) : Timed (flooded n ++ [(ofSecs 900, .failure "k")]) := by
  have hflood : ∀ c ∈ flood n ++ [(ofSecs 900, Call.failure "k")], c.1 = ofSecs 900 := by
    intro c hc
    rcases List.mem_append.mp hc with hc | hc
    · obtain ⟨i, -, rfl⟩ := List.mem_map.mp hc
      rfl
    · obtain rfl := List.mem_singleton.mp hc
      rfl
  rw [Timed, flooded, List.append_assoc, List.singleton_append, List.pairwise_cons]
  refine ⟨fun c _ => Nat.zero_le _, List.pairwise_of_forall_mem_list fun a ha b hb => ?_⟩
  rw [hflood a ha, hflood b hb]

/-- The flood fills the map, so the next failure of "k" drops its entry before it counts. -/
theorem failing_flooded {n : ℕ} (hn : n + 1 = pruneThreshold) :
    trackedKey "k" (prune oneAttempt (ofSecs 900) (run oneAttempt (flooded n))) = "k" ∧
      failing oneAttempt "k" (ofSecs 900) (run oneAttempt (flooded n)) = .new (ofSecs 900) := by
  obtain ⟨hsize, hget⟩ := run_flooded (n := n) (by omega)
  have hpruned : prune oneAttempt (ofSecs 900) (run oneAttempt (flooded n)) =
      (run oneAttempt (flooded n)).retain fun e => !e.isIdle (ofSecs 900) oneAttempt.window :=
    if_pos (by omega)
  have hidle : (!Entry.isIdle (ofSecs 900) oneAttempt.window ⟨0, 0, some (ofSecs 60), 1⟩) = false := by
    decide
  have hroom : (prune oneAttempt (ofSecs 900) (run oneAttempt (flooded n))).size <
      pruneThreshold := by
    have hlt := OrdMap.size_retain_lt (p := fun e => !e.isIdle (ofSecs 900) oneAttempt.window) hget
      hidle
    rw [← hpruned] at hlt
    omega
  have htracked := trackedKey_of_lt hroom "k"
  refine ⟨htracked, ?_⟩
  rw [failing, htracked, entryOf, hpruned, OrdMap.get_retain, hget, Option.filter_some, hidle]
  rfl

theorem locks_not_escalating : ¬ ∀ (config : LockoutConfig) (calls : List (ℕ × Call)),
    config.enabled = true → Timed calls → (run config calls).size ≤ pruneThreshold + 1 ∧
      ∀ before c after, calls = before ++ c :: after →
        Escalates config (Observed.run config before) c := by
  intro h
  obtain ⟨n, hn⟩ : ∃ n, n + 1 = pruneThreshold := ⟨9999, by decide⟩
  obtain ⟨htracked, hfailing⟩ := failing_flooded hn
  have hescalates := (h oneAttempt _ rfl (timed_flooded n)).2 (flooded n) _ [] rfl
  have hbefore : (Observed.run oneAttempt (flooded n)).lastLevel "k" = 1 :=
    lastLevel_flood n (Observed.new.call oneAttempt (0, .failure "k"))
  have hlocks : Locks oneAttempt "k" (ofSecs 900) (run oneAttempt (flooded n)) := by
    rw [Locks, htracked, hfailing]
    decide
  have hlevel := hescalates (by decide) (by rwa [Observed.run_entries])
  rw [Observed.run_entries, hbefore, levelOf, get_recorded rfl, if_pos htracked.symm,
    hfailing] at hlevel
  exact absurd hlevel (by decide)

/-- A run of locks without a flood. -/
theorem locks_escalate_twice :
    (run oneAttempt [(0, .failure "k"), (ofSecs 61, .failure "k")]).size ≤ pruneThreshold + 1 ∧
      Escalates oneAttempt (Observed.run oneAttempt [(0, .failure "k")]) (ofSecs 61, .failure "k") := by
  have h := @locks_escalate oneAttempt rfl [(0, .failure "k"), (ofSecs 61, .failure "k")]
  refine ⟨h.1, h.2 ?_ [(0, .failure "k")] _ [] rfl⟩
  intro before c after hcalls
  match before, hcalls with
  | [], hcalls =>
    obtain ⟨rfl, -⟩ := List.cons.inj hcalls
    exact ⟨fun hfull => absurd hfull (by decide), by decide⟩
  | [_], hcalls =>
    obtain ⟨rfl, hrest⟩ := List.cons.inj hcalls
    obtain ⟨rfl, -⟩ := List.cons.inj hrest
    exact ⟨fun hfull => absurd hfull (by decide), by decide⟩
  | _ :: _ :: _, hcalls => simp at hcalls

end Soika.Auth.LoginGuard
