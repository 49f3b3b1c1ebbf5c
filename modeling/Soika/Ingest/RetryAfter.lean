import Soika.Ingest.RateLimit

/-! # The wait that a limited check is given

The seconds of `Retry-After` are what is left of the window, rounded down but for the first
second. The check that comes after them is allowed when nothing was lost to the rounding.
-/

namespace Soika.RateLimiter

variable {limiter : RateLimiter} {state : Windows} {key : String} {now : ℕ}

/-- What is left of the window of a check. -/
def timeLeft (limiter : RateLimiter) (state : Windows) (call : ℕ × String) : ℕ :=
  limiter.window - (call.1 - (limiter.check state call).windowStart)

theorem limited_secs {call : ℕ × String} {secs : ℕ}
    (h : (limiter.check state call).decision = .limited secs) :
    secs = max (limiter.timeLeft state call / 1000000000) 1 := by
  have hfull := decision_eq_limited h
  simp only [check, checkAt, Window.check, if_pos hfull] at h
  exact (RateDecision.limited.inj h).symm

/-- Waiting rounded-down seconds is waiting long enough when nothing was rounded. -/
theorem le_seconds_iff (d : ℕ) :
    d ≤ max (d / 1000000000) 1 * 1000000000 ↔ d ≤ 1000000000 ∨ 1000000000 ∣ d := by
  constructor
  · intro h
    rcases Nat.lt_or_ge (d / 1000000000) 1 with hlt | hge
    · left
      omega
    · right
      rw [Nat.max_eq_left hge] at h
      exact Nat.dvd_of_mod_eq_zero (by omega)
  · rintro (h | ⟨k, rfl⟩)
    · exact h.trans (Nat.le_mul_of_pos_left _ (Nat.le_max_right _ _))
    · rw [Nat.mul_div_cancel_left k (by decide), Nat.mul_comm]
      exact Nat.mul_le_mul_right _ (Nat.le_max_left _ _)

theorem get_runFrom_others {others : List (ℕ × String)} (h : ∀ c ∈ others, c.2 ≠ key) :
    (limiter.runFrom state others).get key = state.get key := by
  induction others generalizing state with
  | nil => rfl
  | cons call others ih =>
    obtain ⟨hcall, hrest⟩ := List.forall_mem_cons.mp h
    rw [runFrom, List.foldl_cons]
    refine (ih hrest).trans ?_
    rw [get_step, if_neg hcall.symm]

theorem limited_window {secs : ℕ}
    (h : (limiter.check state (now, key)).decision = .limited secs) :
    ∃ w, (limiter.step state (now, key)).get key = some w ∧
      w.windowStart = (limiter.check state (now, key)).windowStart ∧ limiter.limit ≤ w.count := by
  refine ⟨_, by rw [get_step, if_pos rfl], ?_⟩
  rw [check_entry]
  refine ⟨rfl, ?_⟩
  have hfull := decision_eq_limited h
  exact hfull.trans (Nat.le_add_right _ _)

theorem full_allow_iff (hlimit : 0 < limiter.limit) {w : Window} (hget : state.get key = some w)
    (hfull : limiter.limit ≤ w.count) :
    (limiter.check state (now, key)).decision = .allow ↔ limiter.window ≤ now - w.windowStart := by
  rw [decision_eq_allow, entryAt, hget, Option.getD_some, Window.roll]
  split
  · rename_i helapsed
    exact iff_of_true hlimit helapsed
  · rename_i hopen
    exact iff_of_false (Nat.not_lt.mpr hfull) hopen

/--
A check that is limited and told to wait: when no other check of its project comes before it is
repeated at that time, it is allowed then if and only if the window had no more than a second left,
or whole seconds.
-/
theorem retry_allowed_iff (hlimit : 0 < limiter.limit) {before others : List (ℕ × String)} {secs : ℕ}
    (hcalls : Ordered (before ++ (now, key) :: others ++ [(now + secs * 1000000000, key)]))
    (hwindow : 0 < limiter.window) (hothers : ∀ c ∈ others, c.2 ≠ key)
    (hlimited : (limiter.check (limiter.run before) (now, key)).decision = .limited secs) :
    (limiter.check (limiter.run (before ++ (now, key) :: others))
        (now + secs * 1000000000, key)).decision = .allow ↔
      limiter.timeLeft (limiter.run before) (now, key) ≤ 1000000000 ∨
        1000000000 ∣ limiter.timeLeft (limiter.run before) (now, key) := by
  obtain ⟨hbefore, -, hlast⟩ := List.pairwise_append.mp (List.pairwise_append.mp hcalls).1
  have hnow : ∀ c ∈ before, c.1 ≤ now := fun c hc => hlast c hc _ List.mem_cons_self
  obtain ⟨entry, hentry, hstart, hopen, -, -⟩ :=
    (Tracks.run hwindow key hbefore hnow).entry hwindow le_rfl
  have hwindowStart : (limiter.check (limiter.run before) (now, key)).windowStart =
      entry.windowStart := congrArg Window.windowStart hentry
  obtain ⟨w, hget, hw, hfull⟩ := limited_window hlimited
  have hafter : (limiter.run (before ++ (now, key) :: others)).get key = some w := by
    rw [run, runFrom_append]
    exact (get_runFrom_others hothers).trans hget
  rw [full_allow_iff hlimit hafter hfull, limited_secs hlimited, ← le_seconds_iff, timeLeft, hw,
    hwindowStart]
  dsimp only
  omega

/-- Whole seconds are left of the window, and the repeated check is allowed. -/
theorem retry_allowed_whole :
    (RateLimiter.check ⟨1, 60000000000⟩
      (RateLimiter.run ⟨1, 60000000000⟩ ([(0, "a")] ++ (1000000000, "a") :: [(2000000000, "b")]))
      (1000000000 + 59 * 1000000000, "a")).decision = .allow :=
  (retry_allowed_iff (by decide) (by simp [Ordered]) (by decide) (by decide)
    (by decide +kernel)).mpr (.inr (by decide +kernel))

/-- Half a second is lost to the rounding, and the repeated check is limited again. -/
theorem retry_limited :
    (RateLimiter.check ⟨1, 60000000000⟩ (RateLimiter.run ⟨1, 60000000000⟩ [(0, "a")])
        (500000000, "a")).decision = .limited 59 ∧
      (RateLimiter.check ⟨1, 60000000000⟩
        (RateLimiter.run ⟨1, 60000000000⟩ [(0, "a"), (500000000, "a")])
        (500000000 + 59 * 1000000000, "a")).decision = .limited 1 := by
  decide +kernel

end Soika.RateLimiter
