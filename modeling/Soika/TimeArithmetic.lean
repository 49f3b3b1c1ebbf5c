import Soika.Adapters.Database
import Soika.Api.Issues
import Soika.Api.Projects
import Soika.Grouping.SqlitePipeline
import Soika.Scheduler

/-! # Time arithmetic

Durations come from requests, are stored, and are added to or subtracted from
instants in three places: the mute endpoint, the event-rate check of an ingest and
the retention sweep. Over any run of the server, on either database, the process
is never aborted there exactly when each step finds its values in range.
-/

namespace Soika

open Interaction

inductive Operation (db : Database) where
  | mute (req : MuteRequest) (target : Except String Id) (now later : Timestamp)
    (ambient : Ambient)
  | ingest (input : IngestInput) (seenAt : Timestamp) (ambient : Ambient)
  | createProject (req : CreateProjectRequest) (authorized : Except String Unit)
  | updateProject (req : UpdateProjectRequest) (target : Except String Id)
  | retention (clock : Id → Timestamp)
  | other (c : db.calls.Cmd)

namespace Operation

variable {db : Database} (G : Grouping) (config : Config)

def prog : Operation db → Prog db.calls Error Unit
  | mute req target now later ambient =>
    (Api.Issues.mute (db.issues ambient) req target now later).bind fun _ => .ret ()
  | ingest input seenAt ambient =>
    (ingestNormalized (db.issues ambient) db.events G input seenAt).bind fun _ => .ret ()
  | createProject req authorized =>
    (Api.Projects.create db.projects config req authorized).bind fun _ => .ret ()
  | updateProject req target =>
    (Api.Projects.update db.projects config req target).bind fun _ => .ret ()
  | retention clock => (runRetention db.projects db.events config clock).bind fun _ => .ret ()
  | other c => (@Prog.ask db.calls Error c).bind fun _ => .ret ()

def run (op : Operation db) (φ : Faults Error) (s : Store) : Run Error Store Unit :=
  db.machine.exec (op.prog G config) φ s

/-- The age limit of a project, where one applies, leads to an instant of chrono. -/
def SweepInRange (clock : Id → Timestamp) (s : Store) (projectId : Id) : Prop :=
  0 < config.daysOf (s.projectById projectId) →
    AgeInRange (config.daysOf (s.projectById projectId)) (clock projectId)

/-- The window of the rate that the issue of an event is muted under starts at an instant. -/
def RateInRange (B : Backend) (u : IssueUpsert) (s : Store) : Prop :=
  B.decodes (B.ts u.seenAt) = true → ∀ row,
    s.issueByFingerprint u.projectId u.fingerprint = some row → B.Readable row →
      row.status = .muted → row.muteThreshold.isSome →
        ∀ windowSeconds ∈ row.muteWindowSeconds, WindowInRange windowSeconds u.seenAt

/-- The durations that the step meets are within chrono's range, and lead to instants in it. -/
def InRange : Operation db → Store → Prop
  | mute req _ now _ _, _ => ∀ secs, req.Lasts secs → DurationInRange secs now
  | ingest input seenAt _, s => RateInRange db.backend (input.upsert G seenAt) s
  | retention clock, s => ∀ projectId ∈ projectIdsWithEvents s, SweepInRange config clock s projectId
  | _, _ => True

end Operation

/-- Whatever fails on the way, no step of the run aborts the process. -/
def NeverAborts {db : Database} (G : Grouping) (config : Config) :
    List (Operation db) → Store → Prop
  | [], _ => True
  | op :: rest, s => ∀ φ, (op.run G config φ s).outcome ≠ .panic ∧
      NeverAborts G config rest (op.run G config φ s).state

/-- Whatever fails on the way, each step of the run finds its values in range. -/
def StaysInRange {db : Database} (G : Grouping) (config : Config) :
    List (Operation db) → Store → Prop
  | [], _ => True
  | op :: rest, s => op.InRange G config s ∧
      ∀ φ, StaysInRange G config rest (op.run G config φ s).state

section Steps

variable {db : Database} {G : Grouping} {config : Config} {φ : Faults Error} {s : Store}

/-- What follows a program and always returns does not change whether it aborts. -/
theorem exec_discard_panic {α : Type} {p : Prog db.calls Error α} :
    (db.machine.exec (p.bind fun _ => .ret ()) φ s).outcome = .panic ↔
      (db.machine.exec p φ s).outcome = .panic := by
  rw [Machine.exec_bind_panic]
  simp

theorem mute_panic {req : MuteRequest} {target : Except String Id} {now later : Timestamp}
    {ambient : Ambient} :
    (db.machine.exec (Api.Issues.mute (db.issues ambient) req target now later) φ s).outcome =
      .panic ↔ req.toSpec now = none := by
  rw [Api.Issues.mute, Prog.bind_eq]
  cases req.toSpec now with
  | none => simp
  | some spec =>
    simp only [Prog.orAbort_some, Prog.ret_bind, reduceCtorEq, iff_false]
    cases spec with
    | error msg => simp
    | ok spec =>
      cases target with
      | error msg => simp
      | ok issueId =>
        simp only [Prog.bind_eq, Machine.exec_bind_panic, Prog.pure_eq, Machine.exec_ret,
          reduceCtorEq, and_false, exists_false, or_false]
        exact db.exec_statement_ne_panic _ _ _

theorem create_ne_panic (req : CreateProjectRequest) (authorized : Except String Unit) :
    (db.machine.exec (Api.Projects.create db.projects config req authorized) φ s).outcome ≠
      .panic := by
  unfold Api.Projects.create
  cases authorized with
  | error msg => split_ifs <;> exact nofun
  | ok u =>
    split_ifs
    · exact nofun
    · exact nofun
    · intro h
      rcases db.machine.exec_bind_panic.mp h with h | ⟨_, _, _, -, h⟩
      · exact db.exec_statement_ne_panic _ _ _ h
      · cases h

theorem update_ne_panic (req : UpdateProjectRequest) (target : Except String Id) :
    (db.machine.exec (Api.Projects.update db.projects config req target) φ s).outcome ≠
      .panic := by
  unfold Api.Projects.update
  cases target with
  | error msg => exact nofun
  | ok projectId =>
    simp only
    cases Api.Projects.checkUpdate config req with
    | error msg => exact nofun
    | ok u =>
      intro h
      rcases db.machine.exec_bind_panic.mp h with h | ⟨_, _, _, -, h⟩
      · exact db.exec_statement_ne_panic _ _ _ h
      · cases h

/-- After its event is inserted an ingest aborts iff its rate check overflows. -/
theorem afterInsert_panic {ambient : Ambient} {fingerprint : String} {seenAt : Timestamp}
    {upsert : UpsertOutcome} {event : Event} :
    (db.machine.exec (afterInsert (db.issues ambient) db.events fingerprint seenAt upsert event)
      φ s).outcome = .panic ↔ rateCheck upsert.issue seenAt = .overflow := by
  rw [afterInsert]
  cases rateCheck upsert.issue seenAt with
  | skip => simp [resurfaceOn]
  | overflow => simp [resurfaceOn]
  | count threshold since =>
    simp only [resurfaceOn, Machine.exec_bind_panic, reduceCtorEq, iff_false, not_or]
    refine ⟨⟨db.exec_statement_ne_panic _ _ _, ?_⟩, by simp⟩
    rintro ⟨count, s', φ', -, h⟩
    split_ifs at h
    · cases h
    · rcases db.machine.exec_bind_panic.mp h with h | ⟨issue, s'', φ'', -, h⟩
      · exact db.exec_statement_ne_panic _ _ _ h
      · cases h

theorem pendingCheck_overflow_iff {u : IssueUpsert} :
    pendingCheck u s = .overflow ↔ ∃ row,
      s.issueByFingerprint u.projectId u.fingerprint = some row ∧ row.status = .muted ∧
        row.muteThreshold.isSome ∧ ∃ windowSeconds ∈ row.muteWindowSeconds,
          ¬ WindowInRange windowSeconds u.seenAt := by
  simp only [pendingCheck, Option.mem_def, ← windowStart_eq_none]
  cases s.issueByFingerprint u.projectId u.fingerprint with
  | none => simp
  | some row => simp [rateCheck_eq_overflow]

/-- An upsert is accepted with a window out of range pending iff its values are out of range. -/
theorem not_rateInRange_iff {B : Backend} {u : IssueUpsert} (draws : ℕ → String) :
    ¬ Operation.RateInRange B u s ↔ Upsertable B u draws s ∧ pendingCheck u s = .overflow := by
  rw [pendingCheck_overflow_iff, Upsertable, Operation.RateInRange]
  constructor
  · intro h
    push Not at h
    obtain ⟨hd, row, hrow, hr, hm, ht, w, hw, hout⟩ := h
    rw [hrow]
    exact ⟨⟨hd, hr⟩, row, rfl, hm, ht, w, hw, hout⟩
  · rintro ⟨⟨hd, hr⟩, row, hrow, hm, ht, w, hw, hout⟩ h
    rw [hrow] at hr
    exact hout (h hd row hrow hr hm ht w hw)

theorem upsert_ne_panic (ambient : Ambient) (u : IssueUpsert) :
    (db.machine.exec (db.upsert ambient u) φ s).outcome ≠ .panic := by
  intro h
  cases hrow : s.issueByFingerprint u.projectId u.fingerprint with
  | none =>
    rcases db.exec_upsert_new ambient u φ s hrow with ⟨e, he⟩ | ⟨o, ho, -⟩
    · exact absurd (he.symm.trans h) nofun
    · exact absurd (ho.symm.trans h) nofun
  | some row =>
    rw [db.exec_upsert_row ambient u φ s row hrow] at h
    cases hφ : φ 0 with
    | some e =>
      rw [hφ] at h
      cases h
    | none => rcases hu : upsertOnce db.backend u ambient.draws s with e | ⟨o, s'⟩ <;>
        rw [hφ, hu] at h <;> cases h

theorem upserted_overflow {ambient : Ambient} {u : IssueUpsert} {o : UpsertOutcome} {s' : Store}
    {φ' : Faults Error} (h : db.machine.exec (db.upsert ambient u) φ s = ⟨.ok o, s', φ'⟩)
    (hover : rateCheck o.issue u.seenAt = .overflow) :
    Upsertable db.backend u ambient.draws s ∧ pendingCheck u s = .overflow := by
  cases hrow : s.issueByFingerprint u.projectId u.fingerprint with
  | none =>
    rcases db.exec_upsert_new ambient u φ s hrow with ⟨e, he⟩ | ⟨o', ho, hst⟩
    · rw [h] at he
      cases he
    · rw [h] at ho
      cases ho
      rw [rateCheck_skip_of_not_muted (by simp [hst])] at hover
      cases hover
  | some row =>
    rw [db.exec_upsert_row ambient u φ s row hrow] at h
    cases hφ : φ 0 with
    | some e =>
      rw [hφ] at h
      cases h
    | none =>
      rcases hu : upsertOnce db.backend u ambient.draws s with e | ⟨o', t⟩
      · rw [hφ, hu] at h
        cases h
      · rw [hφ, hu] at h
        cases h
        exact ⟨upsertable_iff.mpr ⟨_, hu⟩, (rateCheck_upserted hu).symm.trans hover⟩

/-- An ingest can abort iff the window of its issue's mute is out of range. -/
theorem ingest_panic_iff (hs : s.Consistent) {ambient : Ambient} {input : IngestInput}
    {seenAt : Timestamp} :
    (∃ φ, (db.machine.exec (ingestNormalized (db.issues ambient) db.events G input seenAt)
      φ s).outcome = .panic) ↔ ¬ Operation.RateInRange db.backend (input.upsert G seenAt) s := by
  rw [not_rateInRange_iff ambient.draws, ingestNormalized_eq]
  constructor
  · rintro ⟨φ, h⟩
    rcases db.machine.exec_bind_panic.mp h with h | ⟨o, s', φ', hup, h⟩
    · exact absurd h (upsert_ne_panic _ _)
    · rcases db.machine.exec_bind_panic.mp h with h | ⟨event, s'', φ'', -, h⟩
      · exact absurd h (db.exec_statement_ne_panic _ _ _)
      · exact upserted_overflow hup (afterInsert_panic.mp h)
  · rintro ⟨hup, hover⟩
    obtain ⟨⟨o, s'⟩, hu⟩ := upsertable_iff.mp hup
    obtain ⟨row, hrow, -⟩ := pendingCheck_overflow_iff.mp hover
    refine ⟨.none, ?_⟩
    have hexec := db.exec_upsert_row ambient (input.upsert G seenAt) .none s row hrow
    rw [Faults.none_apply, hu] at hexec
    refine db.machine.exec_bind_panic.mpr (.inr ⟨o, s', _, hexec, ?_⟩)
    have hinsert : insertEvent db.backend (input.newEvent o.issue.id seenAt) s' = .ok _ :=
      insertEvent_of_upsert hs hu rfl rfl
    have hstep := db.exec_statement (.insertEvent (input.newEvent o.issue.id seenAt)) .none s'
    rw [Faults.none_apply, storeStep, hinsert] at hstep
    exact db.machine.exec_bind_panic.mpr (.inr ⟨_, _, _, hstep,
      afterInsert_panic.mpr ((rateCheck_upserted hu).trans hover)⟩)

section Sweep

variable {clock : Id → Timestamp} {projectId : Id}

theorem exec_sweepProject :
    db.machine.exec (sweepProject db.projects db.events config clock projectId) φ s =
      let limit := config.limitOf (s.projectById projectId)
      let (pruned, s') := pruneEventsOverRetention db.backend projectId limit s
      let days := config.daysOf (s.projectById projectId)
      match φ 0, φ 1 with
      | some e, _ => ⟨.err e, s, φ.tail⟩
      | none, some e => ⟨.err e, s, φ.tail.tail⟩
      | none, none =>
        if days > 0 then
          match retentionCutoff days (clock projectId), φ 2 with
          | none, _ => ⟨.panic, s', φ.tail.tail⟩
          | some _, some e => ⟨.err e, s', φ.tail.tail.tail⟩
          | some cutoff, none => ⟨.ok (pruned + (deleteOlderThan db.backend projectId cutoff s').1),
              (deleteOlderThan db.backend projectId cutoff s').2, φ.tail.tail.tail⟩
        else ⟨.ok pruned, s', φ.tail.tail⟩ := by
  rw [sweepProject, Prog.bind_eq, Database.projects, projectsOver, db.exec_statement_bind]
  simp only [storeStep]
  cases φ 0 with
  | some e => rfl
  | none =>
    simp only [Prog.bind_eq]
    rw [Database.events, eventsOver, db.exec_statement_bind]
    simp only [storeStep, Faults.tail_apply]
    cases φ 1 with
    | some e => rfl
    | none =>
      split_ifs with hdays
      · cases retentionCutoff (config.daysOf (s.projectById projectId)) (clock projectId) with
        | none => simp
        | some cutoff =>
          simp only [Prog.orAbort_some, Prog.ret_bind]
          rw [db.exec_statement_bind]
          simp only [storeStep, Faults.tail_apply]
          cases φ 2 <;> rfl
      · rfl

theorem not_sweepInRange_iff :
    ¬ Operation.SweepInRange config clock s projectId ↔
      0 < config.daysOf (s.projectById projectId) ∧
        retentionCutoff (config.daysOf (s.projectById projectId)) (clock projectId) = none := by
  rw [Operation.SweepInRange, Classical.not_imp]
  exact and_congr_right fun h => (retentionCutoff_eq_none h).symm

theorem sweepProject_panic (h : (db.machine.exec (sweepProject db.projects db.events config clock
    projectId) φ s).outcome = .panic) : ¬ Operation.SweepInRange config clock s projectId := by
  rw [exec_sweepProject] at h
  rw [not_sweepInRange_iff]
  cases h₀ : φ 0 <;> cases h₁ : φ 1 <;> simp only [h₀, h₁, reduceCtorEq] at h
  split_ifs at h with hdays
  refine ⟨hdays, ?_⟩
  cases hc : retentionCutoff (config.daysOf (s.projectById projectId)) (clock projectId) with
  | none => rfl
  | some cutoff => cases h₂ : φ 2 <;> simp only [hc, h₂] at h <;> cases h

theorem sweepProject_projects {n : ℕ} {s' : Store} {φ' : Faults Error}
    (h : db.machine.exec (sweepProject db.projects db.events config clock projectId) φ s =
      ⟨.ok n, s', φ'⟩) : s'.projects = s.projects := by
  rw [exec_sweepProject] at h
  cases h₀ : φ 0 <;> cases h₁ : φ 1 <;> simp only [h₀, h₁, Run.mk.injEq, reduceCtorEq, false_and] at h
  split_ifs at h
  · cases hc : retentionCutoff (config.daysOf (s.projectById projectId)) (clock projectId) <;>
      cases h₂ : φ 2 <;> simp only [hc, h₂] at h <;> cases h
    rfl
  · cases h
    rfl

theorem sweepProject_aborts (h : ¬ Operation.SweepInRange config clock s projectId) :
    (db.machine.exec (sweepProject db.projects db.events config clock projectId) .none
      s).outcome = .panic := by
  obtain ⟨hdays, hcutoff⟩ := not_sweepInRange_iff.mp h
  simp [exec_sweepProject, hdays, hcutoff]

variable (db) in
theorem sweepProject_returns (h : Operation.SweepInRange config clock s projectId) :
    ∃ n s', db.machine.exec (sweepProject db.projects db.events config clock projectId) .none s =
      ⟨.ok n, s', .none⟩ := by
  rw [exec_sweepProject]
  simp only [Faults.none_apply, Faults.tail_none]
  split_ifs with hdays
  · cases hc : retentionCutoff (config.daysOf (s.projectById projectId)) (clock projectId) with
    | none => exact absurd h (not_sweepInRange_iff.mpr ⟨hdays, hc⟩)
    | some cutoff => exact ⟨_, _, rfl⟩
  · exact ⟨_, _, rfl⟩

theorem sweepInRange_congr {s' : Store} (h : s'.projects = s.projects) :
    Operation.SweepInRange config clock s' projectId ↔
      Operation.SweepInRange config clock s projectId := by
  rw [Operation.SweepInRange, Operation.SweepInRange, Store.projectById, h, Store.projectById]

theorem sweepProjects_panic {projectIds : List Id}
    (h : (db.machine.exec (sweepProjects db.projects db.events config clock projectIds) φ
      s).outcome = .panic) :
    ∃ projectId ∈ projectIds, ¬ Operation.SweepInRange config clock s projectId := by
  induction projectIds generalizing φ s with
  | nil => cases h
  | cons projectId rest ih =>
    rcases db.machine.exec_bind_panic.mp h with h | ⟨n, s', φ', hone, h⟩
    · exact ⟨projectId, List.mem_cons_self, sweepProject_panic h⟩
    · rcases db.machine.exec_bind_panic.mp h with h | ⟨total, s'', φ'', -, h⟩
      · obtain ⟨other, hmem, hout⟩ := ih h
        rw [sweepInRange_congr (sweepProject_projects hone)] at hout
        exact ⟨other, List.mem_cons_of_mem _ hmem, hout⟩
      · cases h

theorem sweepProjects_aborts {projectIds : List Id}
    (h : ∃ projectId ∈ projectIds, ¬ Operation.SweepInRange config clock s projectId) :
    (db.machine.exec (sweepProjects db.projects db.events config clock projectIds) .none
      s).outcome = .panic := by
  induction projectIds generalizing s with
  | nil =>
    obtain ⟨_, hmem, -⟩ := h
    cases hmem
  | cons projectId rest ih =>
    by_cases hin : Operation.SweepInRange config clock s projectId
    · obtain ⟨n, s', hone⟩ := sweepProject_returns db hin
      obtain ⟨other, hmem, hout⟩ := h
      have hrest : other ∈ rest :=
        (List.mem_cons.mp hmem).resolve_left fun heq => hout (heq ▸ hin)
      have hout' := (sweepInRange_congr (sweepProject_projects hone)).not.mpr hout
      exact db.machine.exec_bind_panic.mpr (.inr ⟨n, s', .none, hone,
        db.machine.exec_bind_panic.mpr (.inl (ih ⟨other, hrest, hout'⟩))⟩)
    · exact db.machine.exec_bind_panic.mpr (.inl (sweepProject_aborts hin))

/-- A sweep can abort iff a project with events has an age limit out of range. -/
theorem runRetention_panic_iff :
    (∃ φ, (db.machine.exec (runRetention db.projects db.events config clock) φ s).outcome =
      .panic) ↔
      ∃ projectId ∈ projectIdsWithEvents s, ¬ Operation.SweepInRange config clock s projectId := by
  simp only [runRetention, Prog.bind_eq, Database.events, eventsOver]
  constructor
  · rintro ⟨φ, h⟩
    rw [db.exec_statement_bind] at h
    cases hφ : φ 0 with
    | some e =>
      rw [hφ] at h
      cases h
    | none =>
      rw [hφ] at h
      exact sweepProjects_panic h
  · intro h
    refine ⟨.none, ?_⟩
    rw [db.exec_statement_bind]
    exact sweepProjects_aborts h

end Sweep

end Steps

section Run

variable {db : Database} (G : Grouping) (config : Config) {s : Store}

/-- A step can abort the process iff its values are out of range. -/
theorem Operation.run_panic_iff (hs : s.Consistent) (op : Operation db) :
    (∃ φ, (op.run G config φ s).outcome = .panic) ↔ ¬ op.InRange G config s := by
  cases op with
  | mute req target now later ambient =>
    simp only [Operation.run, Operation.prog, exec_discard_panic, mute_panic, exists_const,
      Operation.InRange, MuteRequest.toSpec_eq_none]
    push Not
    rfl
  | ingest input seenAt ambient =>
    simp only [Operation.run, Operation.prog, exec_discard_panic]
    exact ingest_panic_iff hs
  | createProject req authorized =>
    simp [Operation.run, Operation.prog, exec_discard_panic, create_ne_panic, Operation.InRange]
  | updateProject req target =>
    simp [Operation.run, Operation.prog, exec_discard_panic, update_ne_panic, Operation.InRange]
  | retention clock =>
    simp only [Operation.run, Operation.prog, exec_discard_panic, Operation.InRange]
    push Not
    exact runRetention_panic_iff
  | other c =>
    simp only [Operation.run, Operation.prog, exec_discard_panic, Operation.InRange, not_true,
      iff_false, not_exists, Machine.exec_ask]
    intro φ
    rcases db.machine.answer c (φ 0) s with ⟨_ | _, _⟩ <;> exact nofun

theorem Operation.run_reachable (h : db.Reachable s) (op : Operation db) (φ : Faults Error) :
    db.Reachable (op.run G config φ s).state :=
  Machine.Reachable.exec (.all _) φ h

end Run

/-- No step of a run ever aborts the process iff each finds its values in range. -/
theorem time_arithmetic_iff {db : Database} (G : Grouping) (config : Config)
    (ops : List (Operation db)) (s : Store) (h : db.Reachable s) :
    NeverAborts G config ops s ↔ StaysInRange G config ops s := by
  induction ops generalizing s with
  | nil => rfl
  | cons op rest ih =>
    have hop : (∀ φ, (op.run G config φ s).outcome ≠ .panic) ↔ op.InRange G config s := by
      rw [← not_exists, op.run_panic_iff G config h.consistent, not_not]
    rw [NeverAborts, StaysInRange, forall_and, hop]
    exact and_congr_right fun _ => forall_congr' fun φ => ih _ (op.run_reachable G config h φ)

def defaultConfig : Config where
  defaultEventsRetention := 1000
  defaultRetentionDays := 0
  isValidWebhookUrl _ := false

section Maximal

variable (db : Database)

def firstOps : List (Operation db) := [
  .createProject ⟨"web", none, none, none⟩ (.ok ()),
  .ingest firstEvent (.atSecond 1) quietAmbient]

def muteOp (req : MuteRequest) : Operation db :=
  .mute req (.ok 1) (.atSecond 2) (.atSecond 2) quietAmbient

def nextEventOp : Operation db := .ingest firstEvent (.atSecond 3) quietAmbient

def sweepOp : Operation db := .retention fun _ => .atSecond 4

def maximalDuration : List (Operation db) := firstOps db ++ [muteOp db ⟨some i64Max, none, none⟩]

def maximalWindow : List (Operation db) :=
  firstOps db ++ [muteOp db ⟨none, some 1, some i64Max⟩, nextEventOp db]

def maximalDays : List (Operation db) :=
  firstOps db ++ [.updateProject ⟨none, none, some i64Max, none, none⟩ (.ok 0), sweepOp db]

end Maximal

theorem time_arithmetic_iff_maximalWindow :
    NeverAborts oneGroup defaultConfig (maximalWindow pgDatabase) .empty ↔
      StaysInRange oneGroup defaultConfig (maximalWindow pgDatabase) .empty :=
  time_arithmetic_iff _ _ _ _ (.of_start rfl)

/-- A duration, a window or an age of `i64::MAX` passes the checks of its request and aborts. -/
theorem maximal_values_abort :
    ¬ NeverAborts oneGroup defaultConfig (maximalDuration sqliteDatabase) .empty ∧
      ¬ NeverAborts oneGroup defaultConfig (maximalWindow sqliteDatabase) .empty ∧
      ¬ NeverAborts oneGroup defaultConfig (maximalDays sqliteDatabase) .empty := by
  refine ⟨fun h => ?_, fun h => ?_, fun h => ?_⟩
  · exact (((h .none).2 .none).2 .none).1 rfl
  · exact ((((h .none).2 .none).2 .none).2 .none).1 rfl
  · exact ((((h .none).2 .none).2 .none).2 .none).1 rfl

end Soika
