import Soika.Ports

/-! # Ingest pipeline tail

Everything after a stack trace has been normalized: upsert the issue, insert the
event, decide which notification is due, and resurface an issue muted under an
event rate. The pipeline is a program over the repositories, so each of its steps
is committed by itself and any of them may fail.
-/

namespace Soika

open Interaction

/-- What the pipeline takes from the grouping functions, for any grouping. -/
structure Grouping where
  fingerprintNormalized : NormalizedEvent → String
  titleFromNormalized : NormalizedEvent → String
  culpritFromNormalized : NormalizedEvent → Option String

inductive NotifyKind where
  | none
  | newIssue
  | regression
  deriving DecidableEq

structure IngestInput where
  projectId : Id
  eventId : String
  normalized : NormalizedEvent
  payload : Value

structure IngestOutcome where
  issue : Issue
  event : Event
  fingerprint : String
  notify : NotifyKind

/-- A top-level string field of the raw payload, trimmed, without empties. -/
def payloadString (payload : Value) (key : String) : Option String :=
  (((payload.get key).bind Value.asStr).map trim).filter (· ≠ "")

/-- The upsert of an event: its grouping, and the fields of an issue seen for the first time. -/
def IngestInput.upsert (G : Grouping) (input : IngestInput) (seenAt : Timestamp) : IssueUpsert where
  projectId := input.projectId
  fingerprint := G.fingerprintNormalized input.normalized
  title := G.titleFromNormalized input.normalized
  culprit := G.culpritFromNormalized input.normalized
  level := input.normalized.level
  environment := payloadString input.payload "environment"
  release := payloadString input.payload "release"
  seenAt := seenAt

/-- The event row of an input under the issue it was grouped into. -/
def IngestInput.newEvent (input : IngestInput) (issueId : Id) (seenAt : Timestamp) : NewEvent where
  eventId := input.eventId
  issueId := issueId
  projectId := input.projectId
  payload := input.payload
  receivedAt := seenAt

/-- Regression takes precedence over new issue. -/
def notifyKind (upsert : UpsertOutcome) : NotifyKind :=
  if upsert.isRegression then .regression else if upsert.isNew then .newIssue else .none

section Programs

variable {S : Signature} (issues : IssueRepository S) (events : EventRepository S)

/-- Unmute an issue that the newly ingested event pushed over the threshold of its event rate. -/
def resurfaceIfRateExceeded (issue : Issue) (now : Timestamp) : Prog S Error (Option Issue) :=
  if issue.status ≠ .muted then return none
  else
    match issue.muteThreshold, issue.muteWindowSeconds with
    | some threshold, some windowSeconds => do
      let window ← Prog.orAbort (Duration.seconds (max windowSeconds 0))
      let windowStart ← Prog.orAbort (now.sub window)
      let since := match issue.mutedAt with
        | none => windowStart
        | some mutedAt => max mutedAt windowStart
      let count ← events.countInWindow issue.id since
      if count < threshold then return none
      else do
        let unmuted ← issues.setStatus issue.id .unresolved
        return some unmuted
    | _, _ => return none

def ingestNormalized (G : Grouping) (input : IngestInput) (seenAt : Timestamp) :
    Prog S Error IngestOutcome := do
  let fingerprint := G.fingerprintNormalized input.normalized
  let upsert ← issues.upsertByFingerprint (input.upsert G seenAt)
  let event ← events.insert (input.newEvent upsert.issue.id seenAt)
  match ← resurfaceIfRateExceeded issues events upsert.issue seenAt with
  | some resurfaced => return ⟨resurfaced, event, fingerprint, .regression⟩
  | none => return ⟨upsert.issue, event, fingerprint, notifyKind upsert⟩

end Programs

inductive RateCheck where
  | skip
  | overflow
  | count (threshold : ℤ) (since : Timestamp)
  deriving DecidableEq

/-- The start of the rolling window; `none` where chrono panics. -/
def windowStart (windowSeconds : ℤ) (now : Timestamp) : Option Timestamp :=
  (Duration.seconds (max windowSeconds 0)).bind now.sub

def rateSince (issue : Issue) (start : Timestamp) : Timestamp :=
  match issue.mutedAt with
  | none => start
  | some mutedAt => max mutedAt start

def rateCheck (issue : Issue) (now : Timestamp) : RateCheck :=
  if issue.status ≠ .muted then .skip
  else
    match issue.muteThreshold, issue.muteWindowSeconds with
    | some threshold, some windowSeconds =>
      match windowStart windowSeconds now with
      | none => .overflow
      | some start => .count threshold (rateSince issue start)
    | _, _ => .skip

section Programs

variable {S : Signature} (issues : IssueRepository S) (events : EventRepository S)

def resurfaceOn (issueId : Id) : RateCheck → Prog S Error (Option Issue)
  | .skip => .ret none
  | .overflow => .abort
  | .count threshold since => (events.countInWindow issueId since).bind fun count =>
      if count < threshold then .ret none
      else (issues.setStatus issueId .unresolved).bind fun unmuted => .ret (some unmuted)

theorem resurfaceIfRateExceeded_eq (issue : Issue) (now : Timestamp) :
    resurfaceIfRateExceeded issues events issue now =
      resurfaceOn issues events issue.id (rateCheck issue now) := by
  unfold resurfaceIfRateExceeded rateCheck
  by_cases hm : issue.status ≠ .muted
  · simp [hm, resurfaceOn]
  · simp only [hm, if_false]
    cases ht : issue.muteThreshold <;> cases hw : issue.muteWindowSeconds <;>
      simp only [resurfaceOn, Prog.pure_eq]
    rename_i threshold windowSeconds
    unfold windowStart rateSince
    cases hd : Duration.seconds (max windowSeconds 0) with
    | none => rfl
    | some window =>
      cases hs : now.sub window with
      | none => simp [hs]
      | some start => cases issue.mutedAt <;> simp [hs]

def ingestOutcome (upsert : UpsertOutcome) (event : Event) (fingerprint : String) :
    Option Issue → IngestOutcome
  | some resurfaced => ⟨resurfaced, event, fingerprint, .regression⟩
  | none => ⟨upsert.issue, event, fingerprint, notifyKind upsert⟩

def afterInsert (fingerprint : String) (seenAt : Timestamp) (upsert : UpsertOutcome)
    (event : Event) : Prog S Error IngestOutcome :=
  (resurfaceOn issues events upsert.issue.id (rateCheck upsert.issue seenAt)).bind fun resurfaced =>
    .ret (ingestOutcome upsert event fingerprint resurfaced)

def afterUpsert (fingerprint : String) (input : IngestInput) (seenAt : Timestamp)
    (upsert : UpsertOutcome) : Prog S Error IngestOutcome :=
  (events.insert (input.newEvent upsert.issue.id seenAt)).bind
    (afterInsert issues events fingerprint seenAt upsert)

theorem ingestNormalized_eq (G : Grouping) (input : IngestInput) (seenAt : Timestamp) :
    ingestNormalized issues events G input seenAt =
      (issues.upsertByFingerprint (input.upsert G seenAt)).bind
        (afterUpsert issues events (G.fingerprintNormalized input.normalized) input seenAt) := by
  simp only [ingestNormalized, Prog.bind_eq, resurfaceIfRateExceeded_eq]
  congr 1
  funext upsert
  unfold afterUpsert
  congr 1
  funext event
  unfold afterInsert
  congr 1
  funext resurfaced
  cases resurfaced <;> rfl

section Calls

variable {issues : IssueRepository S} {events : EventRepository S} {ok : S.Cmd → Prop}

theorem afterInsert_calls (hcount : ∀ id since, (events.countInWindow id since).Calls ok)
    (hstatus : ∀ id, (issues.setStatus id .unresolved).Calls ok) (fingerprint : String)
    (seenAt : Timestamp) (upsert : UpsertOutcome) (event : Event) :
    (afterInsert issues events fingerprint seenAt upsert event).Calls ok := by
  refine Prog.Calls.bind ?_ fun _ => trivial
  cases rateCheck upsert.issue seenAt with
  | skip => trivial
  | overflow => trivial
  | count threshold since =>
    refine (hcount _ _).bind fun count => ?_
    split
    · trivial
    · exact (hstatus _).bind fun _ => trivial

theorem ingestNormalized_calls {G : Grouping} {input : IngestInput} {seenAt : Timestamp}
    (hupsert : (issues.upsertByFingerprint (input.upsert G seenAt)).Calls ok)
    (hinsert : ∀ id, (events.insert (input.newEvent id seenAt)).Calls ok)
    (hcount : ∀ id since, (events.countInWindow id since).Calls ok)
    (hstatus : ∀ id, (issues.setStatus id .unresolved).Calls ok) :
    (ingestNormalized issues events G input seenAt).Calls ok := by
  rw [ingestNormalized_eq]
  exact hupsert.bind fun upsert => (hinsert _).bind fun event =>
    afterInsert_calls hcount hstatus _ _ _ _

end Calls

end Programs

section Decisions

variable {issue issue' : Issue} {now : Timestamp}

theorem rateCheck_skip_of_not_muted (h : issue.status ≠ .muted) : rateCheck issue now = .skip := by
  simp [rateCheck, h]

/-- The decision depends on status and mute columns only. -/
theorem rateCheck_congr (h : issue.standing = issue'.standing) :
    rateCheck issue now = rateCheck issue' now := by
  simp only [Issue.standing, Issue.Standing.mk.injEq] at h
  obtain ⟨h₁, h₂, -, h₄, h₅⟩ := h
  simp only [rateCheck, rateSince, h₁, h₂, h₄, h₅]

theorem rateCheck_eq_count {threshold : ℤ} {since : Timestamp} :
    rateCheck issue now = .count threshold since ↔
      issue.status = .muted ∧ issue.muteThreshold = some threshold ∧
        ∃ windowSeconds start, issue.muteWindowSeconds = some windowSeconds ∧
          windowStart windowSeconds now = some start ∧ since = rateSince issue start := by
  unfold rateCheck
  by_cases hm : issue.status = .muted
  · cases ht : issue.muteThreshold <;> cases hw : issue.muteWindowSeconds <;> simp [hm]
    rename_i t w
    cases hs : windowStart w now <;> simp [eq_comm]
  · simp [hm]

theorem rateCheck_eq_overflow :
    rateCheck issue now = .overflow ↔
      issue.status = .muted ∧ issue.muteThreshold.isSome ∧
        ∃ windowSeconds, issue.muteWindowSeconds = some windowSeconds ∧
          windowStart windowSeconds now = none := by
  unfold rateCheck
  by_cases hm : issue.status = .muted
  · cases ht : issue.muteThreshold <;> cases hw : issue.muteWindowSeconds <;> simp [hm]
    rename_i t w
    cases hs : windowStart w now <;> simp
  · simp [hm]

/-- The rolling window starts at an instant of chrono. -/
def WindowInRange (windowSeconds : ℤ) (now : Timestamp) : Prop :=
  max windowSeconds 0 ≤ maxSeconds ∧ minUtc ≤ now.nanos - max windowSeconds 0 * 1000000000

theorem windowStart_eq_none {windowSeconds : ℤ} :
    windowStart windowSeconds now = none ↔ ¬ WindowInRange windowSeconds now := by
  have hhigh := now.inRange.2
  have hpos := le_max_right windowSeconds 0
  unfold windowStart Duration.seconds WindowInRange
  split_ifs with hs
  · rw [Option.bind_some, Timestamp.sub, Timestamp.ofNanos_eq_none]
    omega
  · simp only [Option.bind_none, true_iff]
    unfold maxSeconds at *
    omega

end Decisions

end Soika
