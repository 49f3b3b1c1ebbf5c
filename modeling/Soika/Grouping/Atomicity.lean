import Soika.Grouping.SqlitePipeline

/-! # Atomicity of an ingest

An ingest is a chain of transactions. An error leaves no trace exactly when it
comes from the first of them: what the upsert has committed is not taken back by
an error of a later step.
-/

namespace Soika

open Interaction

section

variable (G : Grouping) (input : IngestInput) (seenAt : Timestamp) (ambient : Ambient)
  (φ : Faults Error) (s : Store)

/-- An ingest that returns an error has left issues and events as they were. -/
def IngestAtomic : Prop :=
  let run := sqliteDb.exec (sqliteIngest G ambient input seenAt) φ s
  ∀ e, run.outcome = .err e → run.state.issues = s.issues ∧ run.state.events = s.events

/-- A step of the resurfacing check fails: the count, or the status write it leads to. -/
def CheckFails (count : Timestamp → ℤ) : RateCheck → Prop
  | .count threshold since =>
    φ 0 ≠ none ∨ threshold ≤ count since ∧ (φ 1 ≠ none ∨ sqlite.decodes ambient.wall = false)
  | _ => False

/-- The upsert of the event goes through and a later step fails. -/
def FailsAfterUpsert : Prop :=
  φ 0 = none ∧ Upsertable sqlite (input.upsert G seenAt) ambient.draws s ∧
    (φ 1 ≠ none ∨
      CheckFails ambient φ.tail.tail (countWithCurrent seenAt s (groupId (input.upsert G seenAt) s))
        (pendingCheck (input.upsert G seenAt) s))

end

section Steps

variable (ambient : Ambient) (seenAt : Timestamp) (fingerprint : String) {upsert : UpsertOutcome}
  (event : Event) (φ : Faults Error) {s : Store}

theorem afterInsert_eventCount (hrow : s.issueById upsert.issue.id = some upsert.issue) :
    (((sqliteDb.exec (afterInsert (sqliteIssues ambient) sqliteEvents fingerprint seenAt upsert
      event) φ s).state.issueById upsert.issue.id).map Issue.eventCount) =
        some upsert.issue.eventCount := by
  have hself (i : Issue) : (i.withStatus sqlite .unresolved ambient.wall).id = i.id := rfl
  have hwrite : ((s.modifyIssue upsert.issue.id (Issue.withStatus sqlite .unresolved
      ambient.wall)).issueById upsert.issue.id).map Issue.eventCount =
        some upsert.issue.eventCount := by
    rw [Store.issueById_modifyIssue_self s upsert.issue.id hself, hrow]
    rfl
  rw [exec_afterInsert, setStatus_of_stored hrow]
  cases rateCheck upsert.issue seenAt with
  | skip => simp [hrow]
  | overflow => simp [hrow]
  | count threshold since =>
    cases φ 0 with
    | some e => simp [hrow]
    | none =>
      simp only
      split_ifs
      · simp [hrow]
      · cases φ 1 with
        | some e => simp [hrow]
        | none => cases sqlite.rowToIssue (upsert.issue.withStatus sqlite .unresolved ambient.wall)
            <;> exact hwrite

theorem afterInsert_err_iff (hrow : s.issueById upsert.issue.id = some upsert.issue)
    (hr : sqlite.Readable upsert.issue) :
    (∃ e, (sqliteDb.exec (afterInsert (sqliteIssues ambient) sqliteEvents fingerprint seenAt upsert
      event) φ s).outcome = .err e) ↔
      CheckFails ambient φ (fun since => countInWindow sqlite upsert.issue.id since s.events)
        (rateCheck upsert.issue seenAt) := by
  rw [exec_afterInsert, setStatus_of_stored hrow]
  cases rateCheck upsert.issue seenAt with
  | skip => simp [CheckFails]
  | overflow => simp [CheckFails]
  | count threshold since =>
    simp only [CheckFails]
    cases φ 0 with
    | some e => exact ⟨fun _ => .inl nofun, fun _ => ⟨e, rfl⟩⟩
    | none =>
      simp only
      split_ifs with hcount
      · constructor
        · rintro ⟨e, h⟩
          cases h
        · rintro (h | ⟨hle, -⟩)
          · exact absurd rfl h
          · exact absurd hcount (not_lt.mpr hle)
      · have hle := not_lt.mp hcount
        cases φ 1 with
        | some e => exact ⟨fun _ => .inr ⟨hle, .inl nofun⟩, fun _ => ⟨e, rfl⟩⟩
        | none =>
          have hwall := readable_withStatus hr .unresolved ambient.wall
          cases hwrite : sqlite.rowToIssue (upsert.issue.withStatus sqlite .unresolved
            ambient.wall) with
          | error e =>
            have hd : sqlite.decodes ambient.wall = false := by
              rw [← Bool.not_eq_true]
              intro hd
              rw [(hwall.mpr hd).rowToIssue] at hwrite
              cases hwrite
            exact ⟨fun _ => .inr ⟨hle, .inr hd⟩, fun _ => ⟨e, rfl⟩⟩
          | ok i =>
            have hd : sqlite.decodes ambient.wall = true :=
              hwall.mp (Backend.rowToIssue_eq_ok.mp hwrite).2
            constructor
            · rintro ⟨e, h⟩
              cases h
            · rintro (h | ⟨-, h | h⟩)
              · exact absurd rfl h
              · exact absurd rfl h
              · exact absurd (hd.symm.trans h) Bool.noConfusion

end Steps

section Run

variable {G : Grouping} {input : IngestInput} {seenAt : Timestamp} {ambient : Ambient}
  {s s' : Store} {o : UpsertOutcome} (φ : Faults Error)

/-- After an accepted upsert an ingest ends in an error iff a later step fails. -/
theorem afterUpsert_err_iff (hs : s.Consistent) (fingerprint : String)
    (h : upsertOnce sqlite (input.upsert G seenAt) ambient.draws s = .ok (o, s')) :
    (∃ e, (sqliteDb.exec (afterUpsert (sqliteIssues ambient) sqliteEvents fingerprint input seenAt
      o) φ s').outcome = .err e) ↔
      φ 0 ≠ none ∨
        CheckFails ambient φ.tail (countWithCurrent seenAt s (groupId (input.upsert G seenAt) s))
          (pendingCheck (input.upsert G seenAt) s) := by
  rw [exec_afterUpsert_accepted ambient fingerprint φ hs h]
  cases φ 0 with
  | some e => simp
  | none =>
    have hcount (since : Timestamp) :
        countInWindow sqlite o.issue.id since
          (s'.events ++ [(input.newEvent o.issue.id seenAt).row sqlite s'.nextId]) =
        countWithCurrent seenAt s (groupId (input.upsert G seenAt) s) since := by
      rw [countInWindow_append, (upsertOnce_events h).1, countWithCurrent, ← upserted_id h]
      simp [NewEvent.row, IngestInput.newEvent, sqlite]
    have herr := afterInsert_err_iff ambient seenAt fingerprint
      ((input.newEvent o.issue.id seenAt).row sqlite s'.nextId) φ.tail
      (s := s'.withEvent ((input.newEvent o.issue.id seenAt).row sqlite s'.nextId))
      (upsertOnce_stored hs h).1 (upsertOnce_readable h)
    have hcheck : rateCheck o.issue seenAt = pendingCheck (input.upsert G seenAt) s :=
      rateCheck_upserted h
    rw [Store.withEvent_events, funext hcount, hcheck] at herr
    simpa using herr

/-- After an accepted upsert the issues table is not what it was, however the ingest goes on. -/
theorem afterUpsert_issues_ne (hs : s.Consistent) (fingerprint : String)
    (h : upsertOnce sqlite (input.upsert G seenAt) ambient.draws s = .ok (o, s')) :
    (sqliteDb.exec (afterUpsert (sqliteIssues ambient) sqliteEvents fingerprint input seenAt
      o) φ s').state.issues ≠ s.issues := by
  have hstored := (upsertOnce_stored hs h).1
  have hcounted := upsertOnce_counted hs h
  have hne {t : Store} (ht : (t.issueById o.issue.id).map Issue.eventCount =
      some o.issue.eventCount) : t.issues ≠ s.issues := by
    intro heq
    rw [Store.issueById, heq] at ht
    exact hcounted ht
  apply hne
  rw [exec_afterUpsert_accepted ambient fingerprint φ hs h]
  cases φ 0 with
  | some e => simp [hstored]
  | none =>
    exact afterInsert_eventCount ambient seenAt fingerprint
      ((input.newEvent o.issue.id seenAt).row sqlite s'.nextId) φ.tail hstored

variable {φ}

theorem FailsAfterUpsert.not_atomic (hs : s.Consistent)
    (h : FailsAfterUpsert G input seenAt ambient φ s) :
    ¬ IngestAtomic G input seenAt ambient φ s := by
  obtain ⟨h0, hup, hfails⟩ := h
  obtain ⟨⟨o, s'⟩, hu⟩ := upsertable_iff.mp hup
  unfold IngestAtomic
  rw [exec_sqliteIngest, h0, hu]
  obtain ⟨e, he⟩ := (afterUpsert_err_iff φ.tail hs
    (G.fingerprintNormalized input.normalized) hu).mpr hfails
  exact fun hatomic => afterUpsert_issues_ne φ.tail hs (G.fingerprintNormalized input.normalized) hu
    (hatomic e he).1

theorem atomic_of_not_failsAfterUpsert (hs : s.Consistent)
    (h : ¬ FailsAfterUpsert G input seenAt ambient φ s) :
    IngestAtomic G input seenAt ambient φ s := by
  unfold IngestAtomic
  rw [exec_sqliteIngest]
  cases h0 : φ 0 with
  | some e => simp
  | none =>
    cases hu : upsertOnce sqlite (input.upsert G seenAt) ambient.draws s with
    | error e => simp
    | ok r =>
      intro run e he
      exact absurd ⟨h0, upsertable_iff.mpr ⟨_, hu⟩, (afterUpsert_err_iff φ.tail hs
        (G.fingerprintNormalized input.normalized) hu).mp ⟨e, he⟩⟩ h

end Run

/-- An ingest is atomic iff no step fails once its upsert has gone through. -/
theorem ingest_atomic_iff (G : Grouping) (input : IngestInput) (seenAt : Timestamp)
    (ambient : Ambient) (φ : Faults Error) (s : Store) (h : SqliteReachable s) :
    IngestAtomic G input seenAt ambient φ s ↔ ¬ FailsAfterUpsert G input seenAt ambient φ s :=
  ⟨fun hatomic hfails => hfails.not_atomic h.consistent hatomic,
    atomic_of_not_failsAfterUpsert h.consistent⟩

/-- The database is busy when the event is to be inserted. -/
def busyInsert : Faults Error :=
  .ofList [none, some (.dbBusy "insert event" (.db (.sqlite (some 5) "database is locked")))]

theorem ingest_atomic_iff_busyInsert :
    IngestAtomic oneGroup firstEvent (.atSecond 1) quietAmbient busyInsert projectOnly ↔
      ¬ FailsAfterUpsert oneGroup firstEvent (.atSecond 1) quietAmbient busyInsert projectOnly :=
  ingest_atomic_iff _ _ _ _ _ _ projectOnly_reachable

/-- Under no grouping is the ingest of a first event atomic when its event insert fails. -/
theorem busyInsert_not_atomic :
    SqliteReachable projectOnly ∧
      ¬ ∃ G, IngestAtomic G firstEvent (.atSecond 1) quietAmbient busyInsert projectOnly := by
  refine ⟨projectOnly_reachable, ?_⟩
  rintro ⟨G, h⟩
  refine FailsAfterUpsert.not_atomic projectOnly_reachable.consistent ?_ h
  have hdecodes : sqlite.decodes (.atSecond 1) = true := by decide
  have hproject : (projectOnly.projectById 0).isSome := by decide
  exact ⟨rfl, ⟨hdecodes, hproject, "abc123", rfl⟩, .inl nofun⟩

end Soika
