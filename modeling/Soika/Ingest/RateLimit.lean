import Mathlib.Data.List.Induction
import Soika.Library.OrdMap

/-! # Rate limiting

A fixed-window counter for each project. A window starts with the first check of a project
and is replaced by a check that comes once it has elapsed; within a window as many checks are
allowed as the limit says.
-/

namespace Soika

inductive RateDecision where
  | allow
  | limited (retryAfterSecs : ℕ)
  deriving DecidableEq

def RateDecision.isLimited : RateDecision → Bool
  | allow => false
  | limited _ => true

/-- A fixed-window counter for a single project; instants and durations are in nanoseconds. -/
structure Window where
  windowStart : ℕ
  count : ℕ
  deriving DecidableEq

structure RateLimiter where
  limit : ℕ
  window : ℕ

/-- The state of a limiter: the counters by project key. -/
abbrev Windows := OrdMap String Window

namespace Window

def roll (limiter : RateLimiter) (now : ℕ) (w : Window) : Window :=
  if limiter.window ≤ now - w.windowStart then ⟨now, 0⟩ else w

/-- Check and count; the counter stays below the limit, so it does not overflow. -/
def check (limiter : RateLimiter) (now : ℕ) (w : Window) : RateDecision × Window :=
  let entry := w.roll limiter now
  if limiter.limit ≤ entry.count then
    let remaining := limiter.window - (now - entry.windowStart)
    (.limited (max (remaining / 1000000000) 1), entry)
  else (.allow, { entry with count := entry.count + 1 })

end Window

namespace RateLimiter

variable (limiter : RateLimiter)

def entryAt (projectKey : String) (now : ℕ) (state : Windows) : Window :=
  (state.get projectKey).getD ⟨now, 0⟩

/-- Check and count a request of a project. -/
def checkAt (projectKey : String) (now : ℕ) (state : Windows) : RateDecision × Windows :=
  let (decision, entry) := (entryAt projectKey now state).check limiter now
  (decision, state.insert projectKey entry)

structure Check where
  projectKey : String
  now : ℕ
  decision : RateDecision
  windowStart : ℕ

/-- The check of a project at a time, in a state. -/
def check (state : Windows) (call : ℕ × String) : Check where
  projectKey := call.2
  now := call.1
  decision := (limiter.checkAt call.2 call.1 state).1
  windowStart := ((entryAt call.2 call.1 state).roll limiter call.1).windowStart

def step (state : Windows) (call : ℕ × String) : Windows :=
  (limiter.checkAt call.2 call.1 state).2

def runFrom (state : Windows) (calls : List (ℕ × String)) : Windows :=
  calls.foldl limiter.step state

/-- The state after a sequence of checks of a new limiter. -/
def run (calls : List (ℕ × String)) : Windows := limiter.runFrom .empty calls

def checksFrom : Windows → List (ℕ × String) → List Check
  | _, [] => []
  | state, call :: calls =>
    limiter.check state call :: checksFrom (limiter.step state call) calls

/-- The checks of a sequence, with their answers. -/
def checks (calls : List (ℕ × String)) : List Check := limiter.checksFrom .empty calls

/-- The times do not decrease. -/
def Ordered (calls : List (ℕ × String)) : Prop := calls.Pairwise fun a b => a.1 ≤ b.1

/-- How many checks of a project were allowed in a window of it. -/
def allowedIn (projectKey : String) (start : ℕ) (h : List Check) : ℕ :=
  h.countP fun c => c.projectKey = projectKey ∧ c.decision = .allow ∧ c.windowStart = start

/-- How many checks of a project were allowed between two instants. -/
def allowedBetween (projectKey : String) (first last : ℕ) (h : List Check) : ℕ :=
  h.countP fun c => c.projectKey = projectKey ∧ c.decision = .allow ∧ first ≤ c.now ∧ c.now ≤ last

/-- How many checks of a project were allowed less than a window before an instant. -/
def allowedBefore (projectKey : String) (now : ℕ) (h : List Check) : ℕ :=
  h.countP fun c =>
    c.projectKey = projectKey ∧ c.decision = .allow ∧ now < c.now + limiter.window

/-- How many checks of a project would still be allowed at an instant. -/
def budget (projectKey : String) (now : ℕ) (state : Windows) : ℕ :=
  limiter.limit - ((entryAt projectKey now state).roll limiter now).count

variable {limiter} {state : Windows} {key : String} {now : ℕ}

theorem runFrom_append (before after : List (ℕ × String)) :
    limiter.runFrom state (before ++ after) = limiter.runFrom (limiter.runFrom state before) after :=
  List.foldl_append

theorem get_step (call : ℕ × String) : (limiter.step state call).get key =
    if key = call.2 then some ((entryAt call.2 call.1 state).check limiter call.1).2
    else state.get key :=
  OrdMap.get_insert ..

theorem decision_eq_allow (call : ℕ × String) : (limiter.check state call).decision = .allow ↔
    ((entryAt call.2 call.1 state).roll limiter call.1).count < limiter.limit := by
  simp only [check, checkAt, Window.check]
  split <;> simp_all

theorem decision_eq_limited {call : ℕ × String} {secs : ℕ}
    (h : (limiter.check state call).decision = .limited secs) :
    limiter.limit ≤ ((entryAt call.2 call.1 state).roll limiter call.1).count := by
  by_contra hlt
  rw [(decision_eq_allow call).mpr (Nat.lt_of_not_le hlt)] at h
  cases h

theorem check_entry (call : ℕ × String) : ((entryAt call.2 call.1 state).check limiter call.1).2 =
    ⟨(limiter.check state call).windowStart,
      ((entryAt call.2 call.1 state).roll limiter call.1).count +
        if (limiter.check state call).decision = .allow then 1 else 0⟩ := by
  by_cases h : ((entryAt call.2 call.1 state).roll limiter call.1).count < limiter.limit
  · rw [if_pos ((decision_eq_allow call).mpr h), Window.check, if_neg (Nat.not_le.mpr h)]
    rfl
  · rw [if_neg fun ha => h ((decision_eq_allow call).mp ha), Window.check, if_pos (Nat.not_lt.mp h)]
    rfl

theorem budget_of_limited {call : ℕ × String} {secs : ℕ}
    (h : (limiter.check state call).decision = .limited secs) (key : String) (now : ℕ) :
    limiter.budget key now (limiter.step state call) = limiter.budget key now state := by
  have hlimit := decision_eq_limited h
  unfold budget
  rcases Nat.eq_zero_or_pos limiter.limit with hzero | hpos
  · rw [hzero, Nat.zero_sub, Nat.zero_sub]
  · suffices hsame : (limiter.step state call).get key = state.get key by
      rw [entryAt, entryAt, hsame]
    rw [get_step]
    split
    · rename_i hkey
      -- A counter at the limit is an old one, in a window that has not elapsed.
      have hentry : (limiter.check state call).decision ≠ .allow := by rw [h]; exact nofun
      rw [check_entry, if_neg hentry, hkey]
      unfold check entryAt Window.roll at *
      cases hget : state.get call.2 with
      | none => simp only [hget, Option.getD_none] at hlimit; split at hlimit <;> simp at hlimit <;> omega
      | some w =>
        simp only [hget, Option.getD_some] at hlimit ⊢
        split at hlimit
        · simp at hlimit; omega
        · rename_i hopen
          rw [if_neg hopen]
          rfl
    · rfl

/-- The windows of a project that a history shows, and the counter of the latest one. -/
structure Tracks (limiter : RateLimiter) (key : String) (now : ℕ) (state : Windows)
    (h : List Check) : Prop where
  spans : ∀ c ∈ h, c.projectKey = key →
    c.windowStart ≤ c.now ∧ c.now < c.windowStart + limiter.window
  apart : ∀ c ∈ h, ∀ c' ∈ h, c.projectKey = key → c'.projectKey = key →
    c.windowStart < c'.windowStart → c.windowStart + limiter.window ≤ c'.windowStart
  untouched : state.get key = none → ∀ c ∈ h, c.projectKey ≠ key
  latest : ∀ w, state.get key = some w → w.windowStart ≤ now ∧
    (∀ c ∈ h, c.projectKey = key → c.windowStart = w.windowStart ∨
      c.windowStart + limiter.window ≤ w.windowStart) ∧
    w.count = allowedIn key w.windowStart h
  within : ∀ start, allowedIn key start h ≤ limiter.limit

variable {h : List Check}

theorem allowedIn_eq_zero {start : ℕ} (hnone : ∀ c ∈ h, c.projectKey = key → c.windowStart ≠ start) :
    allowedIn key start h = 0 := by
  refine List.countP_eq_zero.mpr fun c hc hallowed => ?_
  obtain ⟨hkey, -, hstart⟩ := of_decide_eq_true hallowed
  exact hnone c hc hkey hstart

theorem allowedIn_snoc (start : ℕ) (call : ℕ × String) :
    allowedIn key start (h ++ [limiter.check state call]) = allowedIn key start h +
      if call.2 = key ∧ (limiter.check state call).decision = .allow ∧
        (limiter.check state call).windowStart = start then 1 else 0 := by
  rw [allowedIn, List.countP_append, List.countP_singleton]
  simp only [decide_eq_true_eq]
  rfl

theorem Tracks.new (limiter : RateLimiter) (key : String) (now : ℕ) :
    Tracks limiter key now .empty [] where
  spans := nofun
  apart := nofun
  untouched _ := nofun
  latest w hw := by cases hw
  within _ := Nat.zero_le _

/-- The counter that a check finds: of the latest window, or of one that starts with it. -/
theorem Tracks.entry (hwindow : 0 < limiter.window) (t : Tracks limiter key now state h) {later : ℕ}
    (hlater : now ≤ later) : ∃ w, (entryAt key later state).roll limiter later = w ∧
      w.windowStart ≤ later ∧ later < w.windowStart + limiter.window ∧
      (∀ c ∈ h, c.projectKey = key → c.windowStart = w.windowStart ∨
        c.windowStart + limiter.window ≤ w.windowStart) ∧
      w.count = allowedIn key w.windowStart h := by
  refine ⟨_, rfl, ?_⟩
  unfold entryAt
  cases hget : state.get key with
  | none =>
    have hnone := t.untouched hget
    have hroll : Window.roll limiter later ⟨later, 0⟩ = ⟨later, 0⟩ := by
      unfold Window.roll
      split <;> rfl
    rw [Option.getD_none, hroll]
    refine ⟨le_rfl, Nat.lt_add_of_pos_right hwindow, fun c hc hkey => absurd hkey (hnone c hc), ?_⟩
    exact (allowedIn_eq_zero fun c hc hkey => absurd hkey (hnone c hc)).symm
  | some w =>
    obtain ⟨hstart, hspread, hcount⟩ := t.latest w hget
    rw [Option.getD_some]
    unfold Window.roll
    split
    · rename_i helapsed
      have hold : ∀ c ∈ h, c.projectKey = key → c.windowStart + limiter.window ≤ later := by
        intro c hc hkey
        rcases hspread c hc hkey with heq | hle <;> omega
      refine ⟨le_rfl, Nat.lt_add_of_pos_right hwindow, fun c hc hkey => .inr (hold c hc hkey), ?_⟩
      refine (allowedIn_eq_zero fun c hc hkey => ?_).symm
      have hc := hold c hc hkey
      dsimp only
      omega
    · rename_i hopen
      exact ⟨hstart.trans hlater, by omega, hspread, hcount⟩

theorem Tracks.own (hwindow : 0 < limiter.window) (t : Tracks limiter key now state h) {later : ℕ}
    (hlater : now ≤ later) : Tracks limiter key later (limiter.step state (later, key))
      (h ++ [limiter.check state (later, key)]) := by
  obtain ⟨w, hw, hstart, hopen, hspread, hcount⟩ := t.entry hwindow hlater
  have hcheck : (limiter.check state (later, key)).windowStart = w.windowStart :=
    congrArg Window.windowStart hw
  have hallow : (limiter.check state (later, key)).decision = .allow ↔ w.count < limiter.limit := by
    rw [decision_eq_allow, hw]
  refine {
    spans := fun c hc hkey => ?_
    apart := fun c hc c' hc' hkey hkey' hlt => ?_
    untouched := fun hget => ?_
    latest := fun v hv => ?_
    within := fun start => ?_ }
  · rcases List.mem_append.mp hc with hc | hc
    · exact t.spans c hc hkey
    · obtain rfl := List.mem_singleton.mp hc
      rw [hcheck]
      exact ⟨hstart, hopen⟩
  · rcases List.mem_append.mp hc with hc | hc <;> rcases List.mem_append.mp hc' with hc' | hc'
    · exact t.apart c hc c' hc' hkey hkey' hlt
    · obtain rfl := List.mem_singleton.mp hc'
      rw [hcheck] at hlt ⊢
      rcases hspread c hc hkey with heq | hle
      · omega
      · exact hle
    · obtain rfl := List.mem_singleton.mp hc
      rw [hcheck] at hlt ⊢
      rcases hspread c' hc' hkey' with heq | hle <;> omega
    · obtain rfl := List.mem_singleton.mp hc
      obtain rfl := List.mem_singleton.mp hc'
      omega
  · rw [get_step, if_pos rfl] at hget
    cases hget
  · rw [get_step, if_pos rfl, check_entry, hcheck, hw] at hv
    obtain rfl := Option.some.inj hv
    refine ⟨hstart, fun c hc hkey => ?_, ?_⟩
    · rcases List.mem_append.mp hc with hc | hc
      · exact hspread c hc hkey
      · obtain rfl := List.mem_singleton.mp hc
        exact .inl hcheck
    · rw [allowedIn_snoc, ← hcount]
      simp [hcheck]
  · rw [allowedIn_snoc]
    split
    · rename_i hnew
      obtain ⟨-, hallowed, hsame⟩ := hnew
      have hlt := hallow.mp hallowed
      rw [hcheck] at hsame
      rw [hcount, hsame] at hlt
      exact hlt
    · exact t.within start

theorem Tracks.other (t : Tracks limiter key now state h) {call : ℕ × String} (hlater : now ≤ call.1)
    (hne : call.2 ≠ key) : Tracks limiter key call.1 (limiter.step state call)
      (h ++ [limiter.check state call]) := by
  have hget : (limiter.step state call).get key = state.get key := by
    rw [get_step, if_neg hne.symm]
  have hmem : ∀ c ∈ h ++ [limiter.check state call], c.projectKey = key → c ∈ h := by
    intro c hc hkey
    rcases List.mem_append.mp hc with hc | hc
    · exact hc
    · obtain rfl := List.mem_singleton.mp hc
      exact absurd hkey hne
  have hsame : ∀ start, allowedIn key start (h ++ [limiter.check state call]) =
      allowedIn key start h := fun start => by
    rw [allowedIn_snoc, if_neg fun hnew => hne hnew.1, Nat.add_zero]
  exact {
    spans := fun c hc hkey => t.spans c (hmem c hc hkey) hkey
    apart := fun c hc c' hc' hkey hkey' => t.apart c (hmem c hc hkey) c' (hmem c' hc' hkey') hkey hkey'
    untouched := fun hnone c hc hkey => t.untouched (hget ▸ hnone) c (hmem c hc hkey) hkey
    latest := fun w hw => by
      obtain ⟨hstart, hspread, hcount⟩ := t.latest w (hget ▸ hw)
      exact ⟨hstart.trans hlater, fun c hc hkey => hspread c (hmem c hc hkey) hkey,
        hcount.trans (hsame _).symm⟩
    within := fun start => (hsame start).trans_le (t.within start) }

theorem Tracks.later (t : Tracks limiter key now state h) {later : ℕ} (hlater : now ≤ later) :
    Tracks limiter key later state h :=
  { t with
    latest := fun w hw => by
      obtain ⟨hstart, hrest⟩ := t.latest w hw
      exact ⟨hstart.trans hlater, hrest⟩ }

theorem checksFrom_append (before after : List (ℕ × String)) :
    limiter.checksFrom state (before ++ after) =
      limiter.checksFrom state before ++ limiter.checksFrom (limiter.runFrom state before) after := by
  induction before generalizing state with
  | nil => rfl
  | cons call calls ih => exact congrArg (List.cons _) ih

theorem Tracks.run (hwindow : 0 < limiter.window) (key : String) {calls : List (ℕ × String)}
    (hcalls : Ordered calls) (hnow : ∀ c ∈ calls, c.1 ≤ now) :
    Tracks limiter key now (limiter.run calls) (limiter.checks calls) := by
  induction calls using List.reverseRecOn generalizing now with
  | nil => exact Tracks.new limiter key now
  | append_singleton calls call ih =>
    obtain ⟨hbefore, -, hlast⟩ := List.pairwise_append.mp hcalls
    have t := ih hbefore fun c hc => hlast c hc call (List.mem_singleton_self _)
    rw [RateLimiter.run, runFrom_append, checks, checksFrom_append]
    have hstep : Tracks limiter key call.1 (limiter.step (limiter.run calls) call)
        (limiter.checks calls ++ [limiter.check (limiter.run calls) call]) := by
      by_cases hkey : call.2 = key
      · subst hkey
        exact t.own hwindow le_rfl
      · exact t.other le_rfl hkey
    exact hstep.later (hnow call (by simp))

/-- A run of checks keeps track of every project up to its last check. -/
theorem Tracks.of_ordered (hwindow : 0 < limiter.window) (key : String)
    {calls : List (ℕ × String)} (hcalls : Ordered calls) :
    ∃ now, Tracks limiter key now (limiter.run calls) (limiter.checks calls) := by
  induction calls using List.reverseRecOn with
  | nil => exact ⟨0, Tracks.new limiter key 0⟩
  | append_singleton calls call ih =>
    refine ⟨call.1, Tracks.run hwindow key hcalls fun c hc => ?_⟩
    rcases List.mem_append.mp hc with hc | hc
    · exact (List.pairwise_append.mp hcalls).2.2 c hc call (List.mem_singleton_self _)
    · exact (congrArg Prod.fst (List.mem_singleton.mp hc)).le

/-- Allowed checks of one window are no more than the limit. -/
theorem Tracks.class_le (t : Tracks limiter key now state h) {p : Check → Bool}
    (hallowed : ∀ c, p c = true → c.projectKey = key ∧ c.decision = .allow)
    (hsame : ∀ c ∈ h, ∀ c' ∈ h, p c = true → p c' = true → c.windowStart = c'.windowStart) :
    h.countP p ≤ limiter.limit := by
  rcases Nat.eq_zero_or_pos (h.countP p) with hzero | hpos
  · omega
  · obtain ⟨c, hc, hp⟩ := List.countP_pos_iff.mp hpos
    refine (List.countP_mono_left fun c' hc' hp' => ?_).trans (t.within c.windowStart)
    obtain ⟨hkey, hallow⟩ := hallowed c' hp'
    exact decide_eq_true ⟨hkey, hallow, hsame c' hc' c hc hp' hp⟩

/-- Two windows at most meet a stretch of time that is as long as a window: one that starts in it, and
one that started before. -/
theorem Tracks.between_le (t : Tracks limiter key now state h) (first : ℕ) :
    allowedBetween key first (first + limiter.window) h ≤ 2 * limiter.limit := by
  let started (c : Check) : Bool := first < c.windowStart
  have hlater : ∀ c ∈ h, ∀ c' ∈ h, c.projectKey = key → c'.projectKey = key → first ≤ c.now →
      c.windowStart < c'.windowStart → first < c'.windowStart ∧
        (first < c.windowStart → first + limiter.window < c'.windowStart) := by
    intro c hc c' hc' hkey hkey' hfirst hlt
    have hspan := t.spans c hc hkey
    have hapart := t.apart c hc c' hc' hkey hkey' hlt
    omega
  have hone : ∀ b, h.countP (fun c => (c.projectKey = key ∧ c.decision = .allow ∧ first ≤ c.now ∧
      c.now ≤ first + limiter.window) && started c == b) ≤ limiter.limit := by
    intro b
    refine t.class_le (fun c hc => ?_) fun c hc c' hc' hp hp' => ?_
    · simp only [Bool.and_eq_true, decide_eq_true_eq] at hc
      exact ⟨hc.1.1, hc.1.2.1⟩
    · simp only [Bool.and_eq_true, decide_eq_true_eq, beq_iff_eq] at hp hp'
      obtain ⟨⟨hkey, -, hfirst, hlast⟩, hb⟩ := hp
      obtain ⟨⟨hkey', -, hfirst', hlast'⟩, hb'⟩ := hp'
      have hstart := t.spans c hc hkey
      have hstart' := t.spans c' hc' hkey'
      have hiff : first < c.windowStart ↔ first < c'.windowStart := by
        rw [← decide_eq_decide]
        exact hb.trans hb'.symm
      rcases Nat.lt_trichotomy c.windowStart c'.windowStart with hlt | heq | hgt
      · have hfar := hlater c hc c' hc' hkey hkey' hfirst hlt
        omega
      · exact heq
      · have hfar := hlater c' hc' c hc hkey' hkey hfirst' hgt
        omega
  have hsplit := List.countP_eq_countP_filter_add h (fun c => decide (c.projectKey = key ∧
    c.decision = .allow ∧ first ≤ c.now ∧ c.now ≤ first + limiter.window)) started
  rw [List.countP_filter, List.countP_filter] at hsplit
  have htrue := hone true
  have hfalse := hone false
  simp only [beq_true, beq_false] at htrue hfalse
  unfold allowedBetween
  omega

/-- A check is limited only while the latest window, less than a window old, is full. -/
theorem Tracks.full (hwindow : 0 < limiter.window) (t : Tracks limiter key now state h) {later : ℕ}
    (hlater : now ≤ later) {secs : ℕ}
    (hlimited : (limiter.check state (later, key)).decision = .limited secs) :
    limiter.limit ≤ limiter.allowedBefore key later h := by
  obtain ⟨w, hw, -, hopen, -, hcount⟩ := t.entry hwindow hlater
  have hfull : limiter.limit ≤ w.count := hw ▸ decision_eq_limited hlimited
  refine (hcount ▸ hfull).trans (List.countP_mono_left fun c hc hp => ?_)
  obtain ⟨hkey, hallow, hstart⟩ := of_decide_eq_true hp
  have hspan := t.spans c hc hkey
  exact decide_eq_true ⟨hkey, hallow, by omega⟩

theorem get_run_filter (key : String) (calls : List (ℕ × String)) :
    (limiter.run (calls.filter fun c => c.2 = key)).get key = (limiter.run calls).get key := by
  induction calls using List.reverseRecOn with
  | nil => rfl
  | append_singleton calls call ih =>
    have hrun : limiter.run (calls ++ [call]) = limiter.step (limiter.run calls) call :=
      runFrom_append ..
    rw [List.filter_append, hrun]
    by_cases hkey : call.2 = key
    · subst hkey
      have hfilter : [call].filter (fun c => c.2 = call.2) = [call] := by simp
      have hown : limiter.run (calls.filter (fun c => c.2 = call.2) ++ [call]) =
          limiter.step (limiter.run (calls.filter fun c => c.2 = call.2)) call := runFrom_append ..
      rw [hfilter, hown, get_step, get_step, if_pos rfl, if_pos rfl, entryAt, entryAt, ih]
    · have hfilter : [call].filter (fun c => c.2 = key) = [] := by simp [hkey]
      rw [hfilter, List.append_nil, get_step, if_neg (Ne.symm hkey), ih]

/--
For checks at times that do not decrease: within one of its windows a project is allowed no more
than the limit, and no more than twice the limit in any stretch as long as a window; an answer that
limits comes only when the limit was used up less than a window ago, and leaves all budgets alone;
and each answer is the one that the checks of the project alone would get.
-/
theorem rate_limiter_bounds (limiter : RateLimiter) (hwindow : 0 < limiter.window)
    {calls : List (ℕ × String)} (hcalls : Ordered calls) (key : String) :
    (∀ start, allowedIn key start (limiter.checks calls) ≤ limiter.limit) ∧
    (∀ first, allowedBetween key first (first + limiter.window) (limiter.checks calls) ≤
      2 * limiter.limit) ∧
    ∀ before now after, calls = before ++ (now, key) :: after →
      let answer := limiter.check (limiter.run before) (now, key)
      (∀ secs, answer.decision = .limited secs →
        limiter.limit ≤ limiter.allowedBefore key now (limiter.checks before) ∧
        ∀ key' later, limiter.budget key' later (limiter.run (before ++ [(now, key)])) =
          limiter.budget key' later (limiter.run before)) ∧
      answer = limiter.check (limiter.run (before.filter fun c => c.2 = key)) (now, key) := by
  obtain ⟨last, t⟩ := Tracks.of_ordered hwindow key hcalls
  refine ⟨t.within, t.between_le, ?_⟩
  rintro before now after rfl
  obtain ⟨hbefore, -, hlast⟩ := List.pairwise_append.mp hcalls
  have hnow : ∀ c ∈ before, c.1 ≤ now := fun c hc => hlast c hc _ List.mem_cons_self
  refine ⟨fun secs hlimited => ⟨?_, fun key' later => ?_⟩, ?_⟩
  · exact (Tracks.run hwindow key hbefore hnow).full hwindow le_rfl hlimited
  · rw [run, runFrom_append]
    exact budget_of_limited hlimited key' later
  · unfold check checkAt entryAt
    rw [get_run_filter]

/-- Two checks in a window of a limiter that allows one, and one in the window after it. -/
theorem rate_limiter_bounds_of_three :
    Ordered [(0, "a"), (5, "a"), (10, "a")] ∧
      ((RateLimiter.checks ⟨1, 10⟩ [(0, "a"), (5, "a"), (10, "a")]).map Check.decision =
        [.allow, .limited 1, .allow]) ∧
      allowedBetween "a" 0 10 (RateLimiter.checks ⟨1, 10⟩ [(0, "a"), (5, "a"), (10, "a")]) ≤ 2 :=
  have hordered : Ordered [(0, "a"), (5, "a"), (10, "a")] := by simp [Ordered]
  ⟨hordered, by decide +kernel, (rate_limiter_bounds ⟨1, 10⟩ (by decide) hordered "a").2.1 0⟩

end RateLimiter

end Soika
