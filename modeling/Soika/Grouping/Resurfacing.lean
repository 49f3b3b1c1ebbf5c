import Soika.Grouping.Accounting

/-! # Resurfacing under an event rate

On SQLite, over a run of mutes and ingests, an ingest resurfaces a muted issue
exactly when enough of its events fall into the window of its mute. The database
counts by comparing texts; that this counts instants needs the invariant that the
instants stored can be read back.
-/

namespace Soika

open Interaction

def receivedSince (issueId : Id) (since : Timestamp) (events : List Event) : ℤ :=
  events.countP fun e => e.issueId = issueId && since ≤ e.receivedAt

inductive Move where
  | mute (issueId : Id) (spec : MuteSpec) (now : Timestamp)
  | ingest (input : IngestInput) (seenAt : Timestamp) (ambient : Ambient)

/-- The state after a move that nothing fails on its way. -/
def Move.run (G : Grouping) (s : Store) : Move → Store
  | mute issueId spec now =>
    (sqliteDb.exec (onSqlite (.store (.mute issueId spec now))) .none s).state
  | ingest input seenAt ambient =>
    (sqliteDb.exec (sqliteIngest G ambient input seenAt) .none s).state

def afterMoves (G : Grouping) (moves : List Move) (s : Store) : Store :=
  moves.foldl (Move.run G) s

/-- The instants that a move writes are those of a clock with four-digit years. -/
def Move.Clocked : Move → Prop
  | mute _ _ now => now.FourDigitYear
  | ingest _ seenAt ambient => seenAt.FourDigitYear ∧ ambient.wall.FourDigitYear

/-- The columns that are set from a clock, all but the end of a mute, have four-digit years. -/
structure Issue.Clocked (i : Issue) : Prop where
  mutedAt : ∀ t ∈ i.mutedAt, t.FourDigitYear
  firstSeen : i.firstSeen.FourDigitYear
  lastSeen : i.lastSeen.FourDigitYear
  createdAt : i.createdAt.FourDigitYear
  updatedAt : i.updatedAt.FourDigitYear

def IssuesClocked (s : Store) : Prop := ∀ i ∈ s.issues, i.Clocked

def EventsClocked (s : Store) : Prop := ∀ e ∈ s.events, e.receivedAt.FourDigitYear

theorem sqlite_decodes {t : Timestamp} : sqlite.decodes t = true ↔ t.FourDigitYear := by
  simp [sqlite]

theorem countInWindow_eq_receivedSince {issueId : Id} {since : Timestamp} {events : List Event}
    (hs : since.FourDigitYear) (he : ∀ e ∈ events, e.receivedAt.FourDigitYear) :
    countInWindow sqlite issueId since events = receivedSince issueId since events := by
  unfold countInWindow receivedSince
  congr 1
  refine List.countP_congr fun e hmem => ?_
  simp only [sqlite, Bool.and_eq_true, decide_eq_true_eq]
  rw [Timestamp.toRfc3339_le_iff hs (he e hmem)]

section Since

variable {issue : Issue} {now start : Timestamp} {windowSeconds : ℤ}

theorem windowStart_le (h : windowStart windowSeconds now = some start) : start ≤ now := by
  obtain ⟨window, hw, hsub⟩ := Option.bind_eq_some_iff.mp h
  refine Timestamp.sub_le ?_ hsub
  unfold Duration.seconds at hw
  split at hw
  · cases hw
    have := le_max_right windowSeconds 0
    omega
  · cases hw

theorem rateSince_eq {mutedAt : Timestamp} (hm : issue.mutedAt = some mutedAt) :
    rateSince issue start = max mutedAt start := by
  rw [rateSince, hm]

theorem rateSince_fourDigitYear {mutedAt : Timestamp} (hm : issue.mutedAt = some mutedAt)
    (hat : mutedAt.FourDigitYear) (hnow : now.FourDigitYear)
    (h : windowStart windowSeconds now = some start) : (rateSince issue start).FourDigitYear := by
  rw [rateSince_eq hm]
  rcases le_total start mutedAt with hle | hle
  · rwa [max_eq_left hle]
  · rw [max_eq_right hle]
    exact hat.of_between hnow hle (windowStart_le h)

end Since

section Runs

variable {G : Grouping} {s : Store}

def SqliteCmd.OfMove : SqliteCmd → Prop
  | upsert _ _ => True
  | store (.insertEvent _) => True
  | store (.countInWindow _ _) => True
  | store (.setStatus _ status _) => status = .unresolved
  | store (.mute _ _ _) => True
  | _ => False

theorem SqliteCmd.OfMove.admissible {c : SqliteCmd} (h : c.OfMove) : c.Admissible := by
  cases c with
  | store c => cases c <;> simp_all [SqliteCmd.OfMove, SqliteCmd.Admissible, StoreCmd.Admissible]
  | _ => trivial

theorem Move.run_reachable (h : SqliteReachable s) (m : Move) : SqliteReachable (m.run G s) := by
  cases m with
  | mute issueId spec now => exact Machine.Reachable.exec (.ask trivial) _ h
  | ingest input seenAt ambient =>
    exact Machine.Reachable.exec (sqliteIngest_calls trivial (fun _ => trivial)
      (fun _ _ => trivial) fun _ => nofun) _ h

/-- An ingest stores no event, or one whose instant has been read back by then. -/
theorem ingest_events (hs : s.Consistent) (ambient : Ambient) (input : IngestInput)
    (seenAt : Timestamp) :
    (sqliteDb.exec (sqliteIngest G ambient input seenAt) .none s).state.events = s.events ∨
      ∃ e : Event, e.receivedAt.FourDigitYear ∧
        (sqliteDb.exec (sqliteIngest G ambient input seenAt) .none s).state.events =
          s.events ++ [e] := by
  rw [exec_sqliteIngest]
  cases hu : upsertOnce sqlite (input.upsert G seenAt) ambient.draws s with
  | error e => exact .inl rfl
  | ok r =>
    obtain ⟨o, s'⟩ := r
    refine .inr ⟨(input.newEvent o.issue.id seenAt).row sqlite s'.nextId,
      sqlite_decodes.mp (upsertable_iff.mpr ⟨_, hu⟩).1, ?_⟩
    simp only [Faults.none_apply, Faults.tail_none]
    rw [exec_afterUpsert_accepted ambient _ _ hs hu]
    exact (exec_events (sqlite_afterInsert_calls (fun _ _ => trivial) (fun _ => trivial) _ _ _ _)
      _ _).trans (congrArg (· ++ _) (upsertOnce_events hu).1)

theorem Move.run_eventsClocked (hs : s.Consistent) (h : EventsClocked s) (m : Move) :
    EventsClocked (m.run G s) := by
  cases m with
  | mute issueId spec now =>
    have hmute : (onSqlite (.store (.mute issueId spec now))).Calls SqliteCmd.KeepsEvents :=
      .ask trivial
    have heq : (Move.run G s (.mute issueId spec now)).events = s.events := exec_events hmute _ s
    rwa [EventsClocked, heq]
  | ingest input seenAt ambient =>
    rcases ingest_events hs ambient input seenAt with heq | ⟨e, he, heq⟩
    · rwa [EventsClocked, Move.run, heq]
    · rw [EventsClocked, Move.run, heq]
      intro e' he'
      rcases List.mem_append.mp he' with he' | he'
      · exact h e' he'
      · obtain rfl := List.mem_singleton.mp he'
        exact he

/-- Calls of mutes and ingests that write instants with four-digit years. -/
def SqliteCmd.Clocked : SqliteCmd → Prop
  | upsert u _ => u.seenAt.FourDigitYear
  | store (.insertEvent _) => True
  | store (.countInWindow _ _) => True
  | store (.setStatus _ _ now) => now.FourDigitYear
  | store (.mute _ _ now) => now.FourDigitYear
  | _ => False

theorem IssuesClocked.updateReturning (h : IssuesClocked s) (issueId : Id) {f : Issue → Issue}
    (hf : ∀ i : Issue, i.Clocked → (f i).Clocked) :
    IssuesClocked (updateReturning sqlite issueId f s).2 := by
  unfold Soika.updateReturning
  split
  · exact forall_mem_modify h fun i hi _ => hf i (h i hi)
  · exact h

theorem IssuesClocked.sqliteStep (h : IssuesClocked s) {c : SqliteCmd} (hc : c.Clocked) :
    IssuesClocked (sqliteStep c s).2 := by
  cases c with
  | upsert u draws =>
    simp only [SqliteCmd.Clocked] at hc
    rw [Soika.sqliteStep]
    cases hu : upsertOnce sqlite u draws s with
    | error e => exact h
    | ok r =>
      obtain ⟨o, s'⟩ := r
      rcases upsertOnce_eq_ok.mp hu with ⟨row, -, -, hb⟩ | ⟨-, hi⟩
      · obtain ⟨-, -, rfl⟩ := bumpExisting_eq_ok.mp hb
        exact forall_mem_modify h fun i hi _ =>
          { h i hi with lastSeen := hc, updatedAt := hc }
      · obtain ⟨code, -, -, -, -, rfl⟩ := insertIssue_eq_ok.mp hi
        intro i hi
        rcases List.mem_append.mp hi with hi | hi
        · exact h i hi
        · obtain rfl := List.mem_singleton.mp hi
          exact ⟨by simp [Issue.ofUpsert], hc, hc, hc, hc⟩
  | overrideFingerprint _ _ _ => exact hc.elim
  | store c =>
    cases c with
    | insertEvent new =>
      rw [Soika.sqliteStep, storeStep, insertEvent]
      split <;> exact h
    | countInWindow issueId since => exact h
    | setStatus issueId status now =>
      refine h.updateReturning issueId fun i hi => { hi with mutedAt := ?_, updatedAt := hc }
      simp [Issue.withStatus]
    | mute issueId spec now =>
      refine h.updateReturning issueId fun i hi => { hi with mutedAt := ?_, updatedAt := hc }
      rintro t ⟨⟩
      exact hc
    | _ => exact hc.elim

theorem Move.run_issuesClocked (h : IssuesClocked s) {m : Move} (hm : m.Clocked) :
    IssuesClocked (m.run G s) := by
  have hstep (c : SqliteCmd) (t : Store) (hc : c.Clocked) (ht : IssuesClocked t) :
      IssuesClocked (sqliteDb.step c t).2 := ht.sqliteStep hc
  cases m with
  | mute issueId spec now =>
    have hcalls : (onSqlite (.store (.mute issueId spec now))).Calls SqliteCmd.Clocked := .ask hm
    exact Machine.exec_keeps hstep hcalls _ h
  | ingest input seenAt ambient =>
    have hcalls : (sqliteIngest G ambient input seenAt).Calls SqliteCmd.Clocked :=
      sqliteIngest_calls hm.1 (fun _ => trivial) (fun _ _ => trivial) fun _ => hm.2
    exact Machine.exec_keeps hstep hcalls _ h

end Runs

section Ingest

variable {G : Grouping} {ambient : Ambient} {input : IngestInput} {seenAt : Timestamp} {s : Store}
  {row : Issue}

/-- The events of the current one's issue reach the threshold of its mute within its window. -/
def RateExceeded (row : Issue) (now : Timestamp) (events : List Event) : Prop :=
  ∃ threshold windowSeconds start mutedAt, row.muteThreshold = some threshold ∧
    row.muteWindowSeconds = some windowSeconds ∧ windowStart windowSeconds now = some start ∧
    row.mutedAt = some mutedAt ∧ threshold ≤ receivedSince row.id (max mutedAt start) events

/-- The ingest made the muted issue live again. -/
def Resurfaced (outcome : IngestOutcome) (row : Issue) : Prop :=
  row.standing = ⟨.unresolved, none, none, none, none⟩ ∧ outcome.notify = .regression

/-- What an ingest into a muted issue does, whenever it returns. -/
def ResurfacesExactly (G : Grouping) (ambient : Ambient) (input : IngestInput)
    (seenAt : Timestamp) (s : Store) (row : Issue) : Prop :=
  let run := sqliteDb.exec (sqliteIngest G ambient input seenAt) .none s
  ∀ outcome, run.outcome = .ok outcome →
    run.state.events = s.events ++ [outcome.event] ∧ outcome.event.issueId = row.id ∧
    outcome.event.receivedAt = seenAt ∧
    ∃ row', run.state.issueById row.id = some row' ∧
      (Resurfaced outcome row' ↔ RateExceeded row seenAt run.state.events) ∧
      (¬ Resurfaced outcome row' → outcome.notify = .none ∧ row'.standing = row.standing)

theorem rateExceeded_iff (hw : row.WellFormed) {now : Timestamp} {events : List Event} :
    RateExceeded row now events ↔
      ∃ threshold since, rateCheck row now = .count threshold since ∧
        threshold ≤ receivedSince row.id since events := by
  constructor
  · rintro ⟨threshold, windowSeconds, start, mutedAt, ht, hws, hstart, hm, hle⟩
    refine ⟨threshold, max mutedAt start, ?_, hle⟩
    refine rateCheck_eq_count.mpr ⟨?_, ht, windowSeconds, start, hws, hstart, (rateSince_eq hm).symm⟩
    exact hw.muted_iff.mpr (by simp [hm])
  · rintro ⟨threshold, since, hc, hle⟩
    obtain ⟨hmuted, ht, windowSeconds, start, hws, hstart, rfl⟩ := rateCheck_eq_count.mp hc
    obtain ⟨mutedAt, hm⟩ := Option.isSome_iff_exists.mp (hw.muted_iff.mp hmuted)
    rw [rateSince_eq hm] at hle
    exact ⟨threshold, windowSeconds, start, mutedAt, ht, hws, hstart, hm, hle⟩

theorem exec_ingest_muted (hs : s.Consistent)
    (hrow : s.issueByFingerprint input.projectId (G.fingerprintNormalized input.normalized) =
      some row) (hmuted : row.status = .muted)
    (hup : Upsertable sqlite (input.upsert G seenAt) ambient.draws s) :
    ∃ event : Event, event.issueId = row.id ∧ event.receivedAt = seenAt ∧
      let bumped := row.bump sqlite (input.upsert G seenAt)
      let unmute := Issue.withStatus sqlite .unresolved ambient.wall
      let t := (s.modifyIssue row.id (Issue.bump sqlite (input.upsert G seenAt))).withEvent event
      let fingerprint := G.fingerprintNormalized input.normalized
      sqliteDb.exec (sqliteIngest G ambient input seenAt) .none s =
        match rateCheck row seenAt with
        | .skip => ⟨.ok ⟨bumped, event, fingerprint, .none⟩, t, .none⟩
        | .overflow => ⟨.panic, t, .none⟩
        | .count threshold since =>
          if countInWindow sqlite row.id since t.events < threshold then
            ⟨.ok ⟨bumped, event, fingerprint, .none⟩, t, .none⟩
          else
            match sqlite.rowToIssue (unmute bumped) with
            | .ok issue =>
              ⟨.ok ⟨issue, event, fingerprint, .regression⟩, t.modifyIssue row.id unmute, .none⟩
            | .error e => ⟨.err e, t.modifyIssue row.id unmute, .none⟩ := by
  obtain ⟨⟨o, s'⟩, hu⟩ := upsertable_iff.mp hup
  obtain ⟨rfl, rfl⟩ := upsertOnce_of_row hrow hu
  let event := (input.newEvent row.id seenAt).row sqlite s.nextId
  let t := (s.modifyIssue row.id (Issue.bump sqlite (input.upsert G seenAt))).withEvent event
  have hstored : t.issueById row.id = some (row.bump sqlite (input.upsert G seenAt)) :=
    (upsertOnce_stored hs hu).1
  have hkind : notifyKind ⟨row.bump sqlite (input.upsert G seenAt), false,
      row.status = .resolved⟩ = .none := by simp [notifyKind, hmuted]
  refine ⟨event, rfl, rfl, ?_⟩
  rw [exec_sqliteIngest, hu]
  simp only [Faults.none_apply, Faults.tail_none]
  rw [exec_afterUpsert_accepted ambient _ _ hs hu]
  refine (exec_afterInsert _ _ _ t _ _ event).trans ?_
  have hid : (row.bump sqlite (input.upsert G seenAt)).id = row.id := rfl
  have hset := setStatus_of_stored (B := sqlite) hstored .unresolved ambient.wall
  simp only [rateCheck_bump, hid, hset, Faults.tail_none, Faults.none_apply, ingestOutcome, hkind]
  cases rateCheck row seenAt with
  | skip => rfl
  | overflow => rfl
  | count threshold since =>
    cases sqlite.rowToIssue (Issue.withStatus sqlite .unresolved ambient.wall
      (row.bump sqlite (input.upsert G seenAt))) <;> rfl

theorem standing_bump_of_muted (u : IssueUpsert) (hmuted : row.status = .muted) :
    (row.bump sqlite u).standing = row.standing := by
  simp [Issue.standing, Issue.bump, hmuted]

/-- The instant a mute counts from can be compared once its row has been read. -/
theorem since_fourDigitYear (hw : row.WellFormed) (hr : sqlite.Readable row) {now since : Timestamp}
    {threshold : ℤ} (hnow : now.FourDigitYear) (h : rateCheck row now = .count threshold since) :
    since.FourDigitYear := by
  obtain ⟨hmuted, -, windowSeconds, start, -, hstart, rfl⟩ := rateCheck_eq_count.mp h
  obtain ⟨mutedAt, hm⟩ := Option.isSome_iff_exists.mp (hw.muted_iff.mp hmuted)
  have hat : mutedAt.FourDigitYear := sqlite_decodes.mp (hr mutedAt (by simp [Issue.timestamps, hm]))
  exact rateSince_fourDigitYear hm hat hnow hstart

theorem upsertable_of_ok {outcome : IngestOutcome}
    (hok : (sqliteDb.exec (sqliteIngest G ambient input seenAt) .none s).outcome = .ok outcome) :
    Upsertable sqlite (input.upsert G seenAt) ambient.draws s := by
  rw [exec_sqliteIngest] at hok
  cases hu : upsertOnce sqlite (input.upsert G seenAt) ambient.draws s with
  | error e =>
    rw [hu] at hok
    cases hok
  | ok r => exact upsertable_iff.mpr ⟨r, hu⟩

theorem Upsertable.readable {B : Backend} {u : IssueUpsert} {draws : ℕ → String}
    (h : Upsertable B u draws s) (hrow : s.issueByFingerprint u.projectId u.fingerprint = some row) :
    B.Readable row := by
  have hmatch := h.2
  rw [hrow] at hmatch
  exact hmatch

theorem resurfacesExactly (hs : s.Consistent) (hw : ∀ i ∈ s.issues, i.WellFormed)
    (he : EventsClocked s)
    (hrow : s.issueByFingerprint input.projectId (G.fingerprintNormalized input.normalized) =
      some row) (hmuted : row.status = .muted) :
    ResurfacesExactly G ambient input seenAt s row := by
  intro outcome hok
  have hmem := (Store.issueByFingerprint_mem hrow).1
  have hup := upsertable_of_ok hok
  have hread : sqlite.Readable row := hup.readable hrow
  have hseen : seenAt.FourDigitYear := sqlite_decodes.mp hup.1
  obtain ⟨event, hid, hat, hexec⟩ := exec_ingest_muted hs hrow hmuted hup
  simp only at hexec
  rw [rateExceeded_iff (hw row hmem)]
  have hbump (i : Issue) : (i.bump sqlite (input.upsert G seenAt)).id = i.id := rfl
  have hstored : (s.modifyIssue row.id (Issue.bump sqlite (input.upsert G seenAt))).issueById
      row.id = some (row.bump sqlite (input.upsert G seenAt)) := by
    rw [Store.issueById_modifyIssue_self s row.id hbump, hs.issueById_of_mem hmem]
    rfl
  have hevents : ∀ e ∈ s.events ++ [event], e.receivedAt.FourDigitYear := by
    intro e hmem
    rcases List.mem_append.mp hmem with hmem | hmem
    · exact he e hmem
    · obtain rfl := List.mem_singleton.mp hmem
      rwa [hat]
  cases hcheck : rateCheck row seenAt with
  | skip =>
    rw [hcheck] at hexec
    rw [hexec] at hok ⊢
    cases hok
    refine ⟨rfl, hid, hat, _, hstored, ?_, fun _ => ⟨rfl, standing_bump_of_muted _ hmuted⟩⟩
    refine ⟨fun h => absurd h.2 nofun, ?_⟩
    rintro ⟨_, _, ⟨⟩, -⟩
  | overflow =>
    rw [hcheck] at hexec
    rw [hexec] at hok
    cases hok
  | count threshold since =>
    have hsince := since_fourDigitYear (hw row hmem) hread hseen hcheck
    rw [hcheck] at hexec
    simp only [Store.withEvent_events, Store.modifyIssue_events,
      countInWindow_eq_receivedSince hsince hevents] at hexec
    by_cases hlt : receivedSince row.id since (s.events ++ [event]) < threshold
    · rw [if_pos hlt] at hexec
      rw [hexec] at hok ⊢
      cases hok
      refine ⟨rfl, hid, hat, _, hstored, ?_, fun _ => ⟨rfl, standing_bump_of_muted _ hmuted⟩⟩
      refine ⟨fun h => absurd h.2 nofun, ?_⟩
      rintro ⟨_, _, ⟨⟩, hle⟩
      exact absurd hlt (not_lt.mpr hle)
    · rw [if_neg hlt] at hexec
      cases hwrite : sqlite.rowToIssue (Issue.withStatus sqlite .unresolved ambient.wall
        (row.bump sqlite (input.upsert G seenAt))) with
      | error e =>
        rw [hwrite] at hexec
        rw [hexec] at hok
        cases hok
      | ok issue =>
        rw [hwrite] at hexec
        rw [hexec] at hok ⊢
        cases hok
        have hself (i : Issue) : (i.withStatus sqlite .unresolved ambient.wall).id = i.id := rfl
        have hlive := Store.issueById_modifyIssue_self
          ((s.modifyIssue row.id (Issue.bump sqlite (input.upsert G seenAt))).withEvent event)
          row.id hself
        rw [Store.issueById_withEvent, hstored] at hlive
        refine ⟨rfl, hid, hat, _, hlive, ?_, fun h => absurd ⟨rfl, rfl⟩ h⟩
        exact ⟨fun _ => ⟨threshold, since, rfl, not_lt.mp hlt⟩, fun _ => ⟨rfl, rfl⟩⟩

/-- On clocks with four-digit years, and a window in range, an ingest into a muted issue returns. -/
theorem ingest_returns (hs : s.Consistent)
    (hrow : s.issueByFingerprint input.projectId (G.fingerprintNormalized input.normalized) =
      some row) (hmuted : row.status = .muted) (hc : row.Clocked)
    (huntil : ∀ t ∈ row.mutedUntil, t.FourDigitYear) (hseen : seenAt.FourDigitYear)
    (hwall : ambient.wall.FourDigitYear)
    (hwindow : ∀ w ∈ row.muteWindowSeconds, (windowStart w seenAt).isSome) :
    ∃ outcome, (sqliteDb.exec (sqliteIngest G ambient input seenAt) .none s).outcome =
      .ok outcome := by
  have hread : sqlite.Readable row := by
    intro t ht
    rw [sqlite_decodes]
    simp only [Issue.timestamps, List.mem_append, Option.mem_toList, List.mem_cons,
      List.not_mem_nil, or_false] at ht
    rcases ht with (ht | ht) | rfl | rfl | rfl | rfl
    · exact hc.mutedAt t ht
    · exact huntil t ht
    · exact hc.firstSeen
    · exact hc.lastSeen
    · exact hc.createdAt
    · exact hc.updatedAt
  have hup : Upsertable sqlite (input.upsert G seenAt) ambient.draws s := by
    refine ⟨sqlite_decodes.mpr hseen, ?_⟩
    have hrow' : s.issueByFingerprint (input.upsert G seenAt).projectId
        (input.upsert G seenAt).fingerprint = some row := hrow
    rw [hrow']
    exact hread
  obtain ⟨event, -, -, hexec⟩ := exec_ingest_muted hs hrow hmuted hup
  simp only at hexec
  rw [hexec]
  cases hcheck : rateCheck row seenAt with
  | skip => exact ⟨_, rfl⟩
  | overflow =>
    obtain ⟨-, -, w, hw, hnone⟩ := rateCheck_eq_overflow.mp hcheck
    have hsome := hwindow w hw
    rw [hnone] at hsome
    cases hsome
  | count threshold since =>
    have hbumped : sqlite.Readable (row.bump sqlite (input.upsert G seenAt)) :=
      (readable_bump hread).mpr (sqlite_decodes.mpr hseen)
    have hwrite : sqlite.Readable (Issue.withStatus sqlite .unresolved ambient.wall
        (row.bump sqlite (input.upsert G seenAt))) :=
      (readable_withStatus hbumped .unresolved ambient.wall).mpr (sqlite_decodes.mpr hwall)
    simp only [hwrite.rowToIssue]
    split_ifs
    · exact ⟨_, rfl⟩
    · exact ⟨_, rfl⟩

end Ingest

section Moves

variable {G : Grouping} {moves : List Move} {s : Store}

theorem afterMoves_reachable (h : SqliteReachable s) : SqliteReachable (afterMoves G moves s) := by
  induction moves generalizing s with
  | nil => exact h
  | cons m moves ih => exact ih (m.run_reachable h)

theorem afterMoves_eventsClocked (h : SqliteReachable s) (he : EventsClocked s) :
    EventsClocked (afterMoves G moves s) := by
  induction moves generalizing s with
  | nil => exact he
  | cons m moves ih => exact ih (m.run_reachable h) (m.run_eventsClocked h.consistent he)

theorem afterMoves_issuesClocked (hm : ∀ m ∈ moves, m.Clocked) (h : IssuesClocked s) :
    IssuesClocked (afterMoves G moves s) := by
  induction moves generalizing s with
  | nil => exact h
  | cons m moves ih =>
    exact ih (fun m' hm' => hm m' (List.mem_cons_of_mem _ hm'))
      (m.run_issuesClocked h (hm m List.mem_cons_self))

end Moves

/--
After any mutes and ingests, an ingest into a muted issue resurfaces it iff the events of its window
reach the threshold; on proper clocks it does return.
-/
theorem resurfacing_exact (G : Grouping) (moves : List Move) (start : Store)
    (h : SqliteReachable start) (he : EventsClocked start) (input : IngestInput)
    (seenAt : Timestamp) (ambient : Ambient) (row : Issue)
    (hrow : (afterMoves G moves start).issueByFingerprint input.projectId
      (G.fingerprintNormalized input.normalized) = some row) (hmuted : row.status = .muted) :
    ResurfacesExactly G ambient input seenAt (afterMoves G moves start) row ∧
      (IssuesClocked start → (∀ m ∈ moves, m.Clocked) → seenAt.FourDigitYear →
        ambient.wall.FourDigitYear → (∀ t ∈ row.mutedUntil, t.FourDigitYear) →
        (∀ w ∈ row.muteWindowSeconds, (windowStart w seenAt).isSome) →
        ∃ outcome, (sqliteDb.exec (sqliteIngest G ambient input seenAt) .none
          (afterMoves G moves start)).outcome = .ok outcome) := by
  have hreach : SqliteReachable (afterMoves G moves start) := afterMoves_reachable h
  refine ⟨resurfacesExactly hreach.consistent hreach.wellFormed (afterMoves_eventsClocked h he) hrow
    hmuted, ?_⟩
  intro hi hm hseen hwall huntil hwindow
  have hclocked : row.Clocked :=
    afterMoves_issuesClocked hm hi row (Store.issueByFingerprint_mem hrow).1
  exact ingest_returns hreach.consistent hrow hmuted hclocked huntil hseen hwall hwindow

/-- A first event, and a mute of its issue until one more event arrives within the hour. -/
def rateMutedMoves : List Move := [
  .ingest firstEvent (.atSecond 1) quietAmbient,
  .mute 1 (.eventRate 1 3600) (.atSecond 2)]

theorem resurfacing_exact_rateMuted :
    ∃ row, (afterMoves oneGroup rateMutedMoves projectOnly).issueByFingerprint 0 "fp" = some row ∧
      ResurfacesExactly oneGroup quietAmbient firstEvent (.atSecond 3)
        (afterMoves oneGroup rateMutedMoves projectOnly) row ∧
      ∃ outcome, (sqliteDb.exec (sqliteIngest oneGroup quietAmbient firstEvent (.atSecond 3)) .none
        (afterMoves oneGroup rateMutedMoves projectOnly)).outcome = .ok outcome := by
  have hstanding : ((afterMoves oneGroup rateMutedMoves projectOnly).issueByFingerprint 0 "fp").map
      Issue.standing = some ⟨.muted, some (.atSecond 2), none, some 1, some 3600⟩ := by decide
  obtain ⟨row, hrow, hst⟩ := Option.map_eq_some_iff.mp hstanding
  have huntil : row.mutedUntil = none := congrArg Issue.Standing.mutedUntil hst
  have hseconds : row.muteWindowSeconds = some 3600 := congrArg Issue.Standing.muteWindowSeconds hst
  obtain ⟨hexact, hreturns⟩ := resurfacing_exact oneGroup rateMutedMoves projectOnly
    projectOnly_reachable (fun _ he => by cases he) firstEvent (.atSecond 3) quietAmbient row hrow
    (congrArg Issue.Standing.status hst)
  refine ⟨row, hrow, hexact, hreturns (fun _ hi => by cases hi) ?_ (by decide) (by decide) ?_ ?_⟩
  · simp only [rateMutedMoves, List.forall_mem_cons, Move.Clocked]
    exact ⟨⟨by decide, by decide⟩, by decide, by simp⟩
  · simp [huntil]
  · rw [hseconds]
    rintro w ⟨⟩
    decide

example : ((afterMoves oneGroup rateMutedMoves projectOnly).issues.map Issue.standing) =
    [⟨.muted, some (.atSecond 2), none, some 1, some 3600⟩] := by decide

end Soika
