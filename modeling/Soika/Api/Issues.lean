import Soika.Ports

/-! # Mute requests

The request body of the mute endpoint and how it becomes a mute. An end that
chrono cannot represent is a panic.
-/

namespace Soika

open Interaction

/-- Mute forever, for a duration, or until enough events arrive within a window. -/
structure MuteRequest where
  durationSeconds : Option ℤ
  events : Option ℤ
  windowSeconds : Option ℤ

/-- Validate and resolve the request into a mute anchored at `now`; `none` where chrono panics. -/
def MuteRequest.toSpec (req : MuteRequest) (now : Timestamp) : Option (Except String MuteSpec) :=
  let hasDuration := req.durationSeconds.isSome
  let hasRate := req.events.isSome || req.windowSeconds.isSome
  if hasDuration && hasRate then
    some (.error "specify either duration_seconds or events/window_seconds, not both")
  else
    match req.durationSeconds with
    | some secs =>
      if secs ≤ 0 then some (.error "duration_seconds must be positive")
      else do
        let duration ← Duration.seconds secs
        let «end» ← now.add duration
        return .ok (.until «end»)
    | none =>
      if hasRate then
        match req.events, req.windowSeconds with
        | some events, some windowSeconds =>
          if events ≤ 0 || windowSeconds ≤ 0 then
            some (.error "events and window_seconds must be positive")
          else some (.ok (.eventRate events windowSeconds))
        | _, _ => some (.error "event-rate mute requires both events and window_seconds")
      else some (.ok .forever)

/--
The mute endpoint. `target` is the issue that `authorize_issue` finds, or the text it refuses with;
the clock is read before it and again for the write.
-/
def Api.Issues.mute {S : Signature} (issues : IssueRepository S) (req : MuteRequest)
    (target : Except String Id) (now later : Timestamp) : Prog S Error (Except String Issue) := do
  match ← Prog.orAbort (req.toSpec now) with
  | .error msg => return .error msg
  | .ok spec =>
    match target with
    | .error msg => return .error msg
    | .ok issueId => do
      let issue ← issues.mute issueId spec later
      return .ok issue

/-- The end of a mute of `secs` seconds from `now` on is an instant of chrono. -/
def DurationInRange (secs : ℤ) (now : Timestamp) : Prop :=
  secs ≤ maxSeconds ∧ now.nanos + secs * 1000000000 ≤ maxUtc

namespace MuteRequest

variable {req : MuteRequest} {now : Timestamp}

def Lasts (req : MuteRequest) (secs : ℤ) : Prop :=
  req.durationSeconds = some secs ∧ req.events = none ∧ req.windowSeconds = none ∧ 0 < secs

theorem durationEnd_eq_none {secs : ℤ} (h : 0 < secs) :
    ((Duration.seconds secs).bind fun duration => now.add duration) = none ↔
      ¬ DurationInRange secs now := by
  have hlow := now.inRange.1
  unfold Duration.seconds DurationInRange
  split_ifs with hs
  · rw [Option.bind_some, Timestamp.add, Timestamp.ofNanos_eq_none]
    omega
  · simp only [Option.bind_none, true_iff]
    unfold maxSeconds at *
    omega

theorem durationEnd_eq_some {secs : ℤ} {ts : Timestamp} (h : 0 < secs) :
    ((Duration.seconds secs).bind fun duration => now.add duration) = some ts ↔
      DurationInRange secs now ∧ ts.nanos = now.nanos + secs * 1000000000 := by
  have hhigh := ts.inRange.2
  unfold Duration.seconds DurationInRange
  split_ifs with hs
  · rw [Option.bind_some, Timestamp.add, Timestamp.ofNanos_eq_some]
    omega
  · refine iff_of_false nofun ?_
    unfold maxSeconds at *
    omega

theorem toSpec_of_lasts {secs : ℤ} (h : req.Lasts secs) :
    req.toSpec now = ((Duration.seconds secs).bind now.add).map fun «end» => .ok (.until «end») := by
  obtain ⟨durationSeconds, events, windowSeconds⟩ := req
  obtain ⟨rfl, rfl, rfl, hpos⟩ := h
  simp only [toSpec, not_le.mpr hpos, if_false]
  cases Duration.seconds secs with
  | none => rfl
  | some duration => cases h : now.add duration <;> simp [h]

theorem toSpec_of_not_lasts (now : Timestamp) (h : ¬ ∃ secs, req.Lasts secs) :
    ∃ spec, req.toSpec now = some spec ∧ ∀ ts, spec ≠ .ok (.until ts) := by
  obtain ⟨durationSeconds, events, windowSeconds⟩ := req
  cases durationSeconds with
  | none =>
    cases events <;> cases windowSeconds <;> simp only [toSpec] <;> repeat' split
    all_goals exact ⟨_, rfl, by simp⟩
  | some secs =>
    by_cases hrate : events.isSome || windowSeconds.isSome
    · exact ⟨_, if_pos hrate, by simp⟩
    · obtain ⟨rfl, rfl⟩ : events = none ∧ windowSeconds = none := by simpa using hrate
      have hs : secs ≤ 0 := by
        by_contra hpos
        exact h ⟨secs, rfl, rfl, rfl, not_le.mp hpos⟩
      exact ⟨_, if_pos hs, by simp⟩

/-- A request makes chrono panic iff it is for a duration whose end chrono does not have. -/
theorem toSpec_eq_none :
    req.toSpec now = none ↔ ∃ secs, req.Lasts secs ∧ ¬ DurationInRange secs now := by
  by_cases h : ∃ secs, req.Lasts secs
  · obtain ⟨secs, hlasts⟩ := h
    rw [toSpec_of_lasts hlasts, Option.map_eq_none_iff, durationEnd_eq_none hlasts.2.2.2]
    constructor
    · exact fun h => ⟨secs, hlasts, h⟩
    · rintro ⟨secs', hlasts', h⟩
      cases hlasts.1.symm.trans hlasts'.1
      exact h
  · obtain ⟨spec, hspec, -⟩ := toSpec_of_not_lasts now h
    rw [hspec]
    exact iff_of_false nofun fun ⟨secs, hlasts, _⟩ => h ⟨secs, hlasts⟩

/-- A request becomes a mute until an instant iff it is for a duration that ends there. -/
theorem toSpec_eq_until {ts : Timestamp} :
    req.toSpec now = some (.ok (.until ts)) ↔ ∃ secs, req.Lasts secs ∧ DurationInRange secs now ∧
      ts.nanos = now.nanos + secs * 1000000000 := by
  by_cases h : ∃ secs, req.Lasts secs
  · obtain ⟨secs, hlasts⟩ := h
    have huntil : req.toSpec now = some (.ok (.until ts)) ↔
        ((Duration.seconds secs).bind fun duration => now.add duration) = some ts := by
      rw [toSpec_of_lasts hlasts, Option.map_eq_some_iff]
      simp
    rw [huntil, durationEnd_eq_some hlasts.2.2.2]
    constructor
    · exact fun h => ⟨secs, hlasts, h⟩
    · rintro ⟨secs', hlasts', h⟩
      cases hlasts.1.symm.trans hlasts'.1
      exact h
  · obtain ⟨spec, hspec, hne⟩ := toSpec_of_not_lasts now h
    rw [hspec, Option.some.injEq]
    exact iff_of_false (hne ts) fun ⟨secs, hlasts, _⟩ => h ⟨secs, hlasts⟩

end MuteRequest

end Soika
