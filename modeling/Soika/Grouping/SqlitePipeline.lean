import Soika.Issues.RowInvariant
import Soika.Grouping.Pipeline

/-! # The pipeline on SQLite, alone

How one ingest runs when nothing else touches the store between its steps: one
equation for each step, and what an accepted upsert leaves behind.
-/

namespace Soika

open Table Interaction

/-- The pipeline over the SQLite repositories. -/
def sqliteIngest (G : Grouping) (ambient : Ambient) (input : IngestInput) (seenAt : Timestamp) :
    Prog sqliteCalls Error IngestOutcome :=
  ingestNormalized (sqliteIssues ambient) sqliteEvents G input seenAt

theorem sqliteIngest_calls {ok : SqliteCmd → Prop} {G : Grouping} {ambient : Ambient}
    {input : IngestInput} {seenAt : Timestamp}
    (hupsert : ok (.upsert (input.upsert G seenAt) ambient.draws))
    (hinsert : ∀ id, ok (.store (.insertEvent (input.newEvent id seenAt))))
    (hcount : ∀ id since, ok (.store (.countInWindow id since)))
    (hstatus : ∀ id, ok (.store (.setStatus id .unresolved ambient.wall))) :
    (sqliteIngest G ambient input seenAt).Calls ok :=
  ingestNormalized_calls (.ask hupsert) (fun id => .ask (hinsert id))
    (fun id since => .ask (hcount id since)) fun id => .ask (hstatus id)

/-- After its event is inserted an ingest only counts and writes a status. -/
theorem sqlite_afterInsert_calls {ok : SqliteCmd → Prop} {ambient : Ambient}
    (hcount : ∀ id since, ok (.store (.countInWindow id since)))
    (hstatus : ∀ id, ok (.store (.setStatus id .unresolved ambient.wall))) (fingerprint : String)
    (seenAt : Timestamp) (upsert : UpsertOutcome) (event : Event) :
    (afterInsert (sqliteIssues ambient) sqliteEvents fingerprint seenAt upsert event).Calls ok :=
  afterInsert_calls (fun id since => .ask (hcount id since)) (fun id => .ask (hstatus id)) _ _ _ _

section Steps

variable (G : Grouping) (ambient : Ambient) (input : IngestInput) (seenAt : Timestamp)
  (φ : Faults Error) (s : Store)

theorem exec_sqliteIngest :
    sqliteDb.exec (sqliteIngest G ambient input seenAt) φ s =
      match φ 0, upsertOnce sqlite (input.upsert G seenAt) ambient.draws s with
      | some e, _ => ⟨.err e, s, φ.tail⟩
      | none, .error e => ⟨.err e, s, φ.tail⟩
      | none, .ok (upsert, s') =>
        sqliteDb.exec (afterUpsert (sqliteIssues ambient) sqliteEvents
          (G.fingerprintNormalized input.normalized) input seenAt upsert) φ.tail s' := by
  rw [sqliteIngest, ingestNormalized_eq, sqliteIssues, sqlite_exec_bind]
  simp only [sqliteStep]
  cases φ 0 with
  | some e => rfl
  | none => cases upsertOnce sqlite (input.upsert G seenAt) ambient.draws s <;> rfl

theorem exec_afterUpsert (fingerprint : String) (upsert : UpsertOutcome) :
    sqliteDb.exec (afterUpsert (sqliteIssues ambient) sqliteEvents fingerprint input seenAt upsert)
        φ s =
      match φ 0, insertEvent sqlite (input.newEvent upsert.issue.id seenAt) s with
      | some e, _ => ⟨.err e, s, φ.tail⟩
      | none, .error e => ⟨.err e, s, φ.tail⟩
      | none, .ok (event, s') =>
        sqliteDb.exec (afterInsert (sqliteIssues ambient) sqliteEvents fingerprint seenAt upsert
          event) φ.tail s' := by
  rw [afterUpsert, sqliteEvents, eventsOver, sqlite_exec_bind]
  simp only [sqliteStep, storeStep]
  cases φ 0 with
  | some e => rfl
  | none => cases insertEvent sqlite (input.newEvent upsert.issue.id seenAt) s <;> rfl

theorem exec_afterInsert (fingerprint : String) (upsert : UpsertOutcome) (event : Event) :
    sqliteDb.exec (afterInsert (sqliteIssues ambient) sqliteEvents fingerprint seenAt upsert event)
        φ s =
      match rateCheck upsert.issue seenAt with
      | .skip => ⟨.ok (ingestOutcome upsert event fingerprint none), s, φ⟩
      | .overflow => ⟨.panic, s, φ⟩
      | .count threshold since =>
        match φ 0 with
        | some e => ⟨.err e, s, φ.tail⟩
        | none =>
          if countInWindow sqlite upsert.issue.id since s.events < threshold then
            ⟨.ok (ingestOutcome upsert event fingerprint none), s, φ.tail⟩
          else
            match φ 1, setStatus sqlite upsert.issue.id .unresolved ambient.wall s with
            | some e, _ => ⟨.err e, s, φ.tail.tail⟩
            | none, (.ok issue, s') =>
              ⟨.ok (ingestOutcome upsert event fingerprint (some issue)), s', φ.tail.tail⟩
            | none, (.error e, s') => ⟨.err e, s', φ.tail.tail⟩ := by
  rw [afterInsert]
  cases rateCheck upsert.issue seenAt with
  | skip => rfl
  | overflow => rfl
  | count threshold since =>
    rw [resurfaceOn, Prog.bind_assoc, sqliteEvents, eventsOver, sqlite_exec_bind]
    simp only [sqliteStep, storeStep]
    cases φ 0 with
    | some e => rfl
    | none =>
      simp only
      split_ifs
      · rfl
      · rw [Prog.bind_assoc, sqliteIssues, sqlite_exec_bind]
        simp only [sqliteStep, storeStep, Faults.tail_apply]
        cases φ 1 with
        | some e => rfl
        | none =>
          rcases setStatus sqlite upsert.issue.id .unresolved ambient.wall s with ⟨_ | _, _⟩ <;> rfl

end Steps

def countWithCurrent (seenAt : Timestamp) (s : Store) (issueId : Id) (since : Timestamp) : ℤ :=
  countInWindow sqlite issueId since s.events + if sqlite.le since seenAt then 1 else 0

section Upserts

variable {B : Backend} {s s' : Store} {u : IssueUpsert} {draws : ℕ → String} {o : UpsertOutcome}

theorem upsertOnce_stored (hs : s.Consistent) (h : upsertOnce B u draws s = .ok (o, s')) :
    s'.issueById o.issue.id = some o.issue ∧ o.issue.projectId = u.projectId ∧
      (s'.projectById u.projectId).isSome := by
  rcases upsertOnce_eq_ok.mp h with ⟨row, hrow, -, hb⟩ | ⟨-, hi⟩
  · obtain ⟨-, rfl, rfl⟩ := bumpExisting_eq_ok.mp hb
    obtain ⟨hmem, hp, -⟩ := Store.issueByFingerprint_mem hrow
    have hself (i : Issue) : (i.bump B u).id = i.id := rfl
    refine ⟨?_, hp, ?_⟩
    · rw [hself, Store.issueById_modifyIssue_self s row.id hself, hs.issueById_of_mem hmem]
      rfl
    · obtain ⟨p, hpm, hpid⟩ := hs.issueProject row hmem
      have hlookup : s.projectById u.projectId = some p := by
        rw [← hp, ← hpid]
        exact hs.projectIds.lookup_of_mem hpm
      exact Option.isSome_iff_exists.mpr ⟨p, hlookup⟩
  · obtain ⟨code, -, hp, -, rfl, rfl⟩ := insertIssue_eq_ok.mp hi
    refine ⟨?_, rfl, hp⟩
    rw [Store.issueById, lookup_append_single]
    have hnone := hs.issueById_nextId
    rw [Store.issueById] at hnone
    simp [Issue.ofUpsert, hnone]

theorem upsertOnce_events (h : upsertOnce B u draws s = .ok (o, s')) :
    s'.events = s.events ∧ s'.projects = s.projects := by
  rcases upsertOnce_eq_ok.mp h with ⟨row, -, -, hb⟩ | ⟨-, hi⟩
  · obtain ⟨-, -, rfl⟩ := bumpExisting_eq_ok.mp hb
    exact ⟨rfl, rfl⟩
  · obtain ⟨code, -, -, -, -, rfl⟩ := insertIssue_eq_ok.mp hi
    exact ⟨rfl, rfl⟩

theorem readable_bump {row : Issue} (hr : B.Readable row) :
    B.Readable (row.bump B u) ↔ B.decodes (B.ts u.seenAt) = true := by
  constructor
  · exact fun h => h _ (by simp [Issue.timestamps, Issue.bump])
  · intro hd t ht
    simp only [Issue.timestamps, Issue.bump, List.mem_append, List.mem_cons, List.not_mem_nil,
      or_false] at ht
    rcases ht with ht | rfl | rfl | rfl | rfl
    · exact hr t (List.mem_append_left _ (List.mem_append.mpr ht))
    all_goals first | exact hd | exact hr _ (by simp [Issue.timestamps])

theorem readable_ofUpsert (id : Id) (code : String) :
    B.Readable (Issue.ofUpsert B u id code) ↔ B.decodes (B.ts u.seenAt) = true := by
  simp [Backend.Readable, Issue.timestamps, Issue.ofUpsert]

/-- The status write of a readable row fails only on a clock that the column cannot hold. -/
theorem readable_withStatus {row : Issue} (hr : B.Readable row) (status : IssueStatus)
    (now : Timestamp) :
    B.Readable (row.withStatus B status now) ↔ B.decodes (B.ts now) = true := by
  constructor
  · exact fun h => h _ (by simp [Issue.timestamps, Issue.withStatus])
  · intro hd t ht
    simp only [Issue.timestamps, Issue.withStatus, Option.toList_none, List.nil_append,
      List.mem_cons, List.not_mem_nil, or_false] at ht
    rcases ht with rfl | rfl | rfl | rfl
    all_goals first | exact hd | exact hr _ (by simp [Issue.timestamps])

/-- The upsert of an event is accepted: its row can be read, or a new one can be inserted. -/
def Upsertable (B : Backend) (u : IssueUpsert) (draws : ℕ → String) (s : Store) : Prop :=
  B.decodes (B.ts u.seenAt) = true ∧
    match s.issueByFingerprint u.projectId u.fingerprint with
    | some row => B.Readable row
    | none => (s.projectById u.projectId).isSome ∧ ∃ code, s.uniqueShortIdOn draws = .ok code

theorem upsertable_iff : Upsertable B u draws s ↔ ∃ r, upsertOnce B u draws s = .ok r := by
  simp only [Prod.exists, upsertOnce_eq_ok, Upsertable]
  cases hrow : s.issueByFingerprint u.projectId u.fingerprint with
  | some row =>
    simp only [Option.some.injEq, exists_eq_left', reduceCtorEq, false_and, or_false,
      bumpExisting_eq_ok]
    constructor
    · rintro ⟨hd, hr⟩
      exact ⟨_, _, hr, (readable_bump hr).mpr hd, rfl, rfl⟩
    · rintro ⟨_, _, hr, hb, -, -⟩
      exact ⟨(readable_bump hr).mp hb, hr⟩
  | none =>
    simp only [reduceCtorEq, false_and, exists_false, true_and, false_or, insertIssue_eq_ok,
      readable_ofUpsert]
    constructor
    · rintro ⟨hd, hp, code, hc⟩
      exact ⟨_, _, code, hc, hp, hd, rfl, rfl⟩
    · rintro ⟨_, _, code, hc, hp, hd, -, -⟩
      exact ⟨hd, hp, code, hc⟩

/-- An accepted upsert has counted: the row's `event_count` is not what it was. -/
theorem upsertOnce_counted (hs : s.Consistent) (h : upsertOnce B u draws s = .ok (o, s')) :
    (s.issueById o.issue.id).map Issue.eventCount ≠ some o.issue.eventCount := by
  rcases upsertOnce_eq_ok.mp h with ⟨row, hrow, -, hb⟩ | ⟨-, hi⟩
  · obtain ⟨-, rfl, rfl⟩ := bumpExisting_eq_ok.mp hb
    have hself : (row.bump B u).id = row.id := rfl
    rw [hself, hs.issueById_of_mem (Store.issueByFingerprint_mem hrow).1]
    simp [Issue.bump]
  · obtain ⟨code, -, -, -, rfl, rfl⟩ := insertIssue_eq_ok.mp hi
    have hself : (Issue.ofUpsert B u s.nextId code).id = s.nextId := rfl
    rw [hself, hs.issueById_nextId]
    simp

theorem upsertOnce_readable (h : upsertOnce B u draws s = .ok (o, s')) : B.Readable o.issue := by
  rcases upsertOnce_eq_ok.mp h with ⟨row, -, -, hb⟩ | ⟨-, hi⟩
  · obtain ⟨hr, rfl, -⟩ := bumpExisting_eq_ok.mp hb
    exact hr
  · obtain ⟨code, -, -, hr, rfl, -⟩ := insertIssue_eq_ok.mp hi
    exact hr

theorem insertEvent_of_upsert (hs : s.Consistent) (h : upsertOnce B u draws s = .ok (o, s'))
    {new : NewEvent} (hi : new.issueId = o.issue.id) (hp : new.projectId = u.projectId) :
    insertEvent B new s' = .ok (new.row B s'.nextId, s'.withEvent (new.row B s'.nextId)) := by
  obtain ⟨hissue, -, hproject⟩ := upsertOnce_stored hs h
  rw [insertEvent, hi, hp, hissue]
  simp [hproject]

theorem rateCheck_bump (row : Issue) (now : Timestamp) :
    rateCheck (row.bump B u) now = rateCheck row now := by
  by_cases hr : row.status = .resolved
  · rw [rateCheck_skip_of_not_muted, rateCheck_skip_of_not_muted] <;> simp [Issue.bump, hr]
  · exact rateCheck_congr (by simp [Issue.standing, Issue.bump, hr])

theorem rateCheck_ofUpsert (id : Id) (code : String) (now : Timestamp) :
    rateCheck (Issue.ofUpsert B u id code) now = .skip :=
  rateCheck_skip_of_not_muted nofun

theorem countInWindow_append (issueId : Id) (since : Timestamp) (events : List Event) (e : Event) :
    countInWindow B issueId since (events ++ [e]) =
      countInWindow B issueId since events +
        if e.issueId = issueId ∧ B.le since e.receivedAt = true then 1 else 0 := by
  simp only [countInWindow, List.countP_append, List.countP_singleton, Nat.cast_add, Bool.and_eq_true,
    decide_eq_true_eq]
  split_ifs <;> simp

theorem exec_afterUpsert_accepted (ambient : Ambient) {input : IngestInput} {seenAt : Timestamp}
    {G : Grouping} (fingerprint : String) (φ : Faults Error) (hs : s.Consistent)
    (h : upsertOnce sqlite (input.upsert G seenAt) draws s = .ok (o, s')) :
    sqliteDb.exec (afterUpsert (sqliteIssues ambient) sqliteEvents fingerprint input seenAt o)
        φ s' =
      let event := (input.newEvent o.issue.id seenAt).row sqlite s'.nextId
      match φ 0 with
      | some e => ⟨.err e, s', φ.tail⟩
      | none => sqliteDb.exec (afterInsert (sqliteIssues ambient) sqliteEvents fingerprint seenAt o
          event) φ.tail (s'.withEvent event) := by
  rw [exec_afterUpsert, insertEvent_of_upsert hs h rfl rfl]
  cases φ 0 <;> rfl

/-- The decision of the resurfacing check, read off the row before the upsert. -/
def pendingCheck (u : IssueUpsert) (s : Store) : RateCheck :=
  match s.issueByFingerprint u.projectId u.fingerprint with
  | some row => rateCheck row u.seenAt
  | none => .skip

theorem rateCheck_upserted (h : upsertOnce B u draws s = .ok (o, s')) :
    rateCheck o.issue u.seenAt = pendingCheck u s := by
  rcases upsertOnce_eq_ok.mp h with ⟨row, hrow, -, hb⟩ | ⟨hnone, hi⟩
  · obtain ⟨-, rfl, -⟩ := bumpExisting_eq_ok.mp hb
    rw [pendingCheck, hrow]
    exact rateCheck_bump row u.seenAt
  · obtain ⟨code, -, -, -, rfl, -⟩ := insertIssue_eq_ok.mp hi
    rw [pendingCheck, hnone]
    exact rateCheck_ofUpsert s.nextId code u.seenAt

/-- The issue an event is grouped into: the holder of its fingerprint, or the next new one. -/
def groupId (u : IssueUpsert) (s : Store) : Id :=
  match s.issueByFingerprint u.projectId u.fingerprint with
  | some row => row.id
  | none => s.nextId

theorem upserted_id (h : upsertOnce B u draws s = .ok (o, s')) : o.issue.id = groupId u s := by
  rcases upsertOnce_eq_ok.mp h with ⟨row, hrow, -, hb⟩ | ⟨hnone, hi⟩
  · obtain ⟨-, rfl, -⟩ := bumpExisting_eq_ok.mp hb
    rw [groupId, hrow]
    rfl
  · obtain ⟨code, -, -, -, rfl, -⟩ := insertIssue_eq_ok.mp hi
    rw [groupId, hnone]
    rfl

theorem upsertOnce_of_row {row : Issue}
    (hrow : s.issueByFingerprint u.projectId u.fingerprint = some row)
    (h : upsertOnce B u draws s = .ok (o, s')) :
    o = ⟨row.bump B u, false, row.status = .resolved⟩ ∧
      s' = s.modifyIssue row.id (Issue.bump B u) := by
  rcases upsertOnce_eq_ok.mp h with ⟨row', hrow', -, hb⟩ | ⟨hnone, -⟩
  · obtain rfl := Option.some.inj (hrow.symm.trans hrow')
    obtain ⟨-, rfl, rfl⟩ := bumpExisting_eq_ok.mp hb
    exact ⟨rfl, rfl⟩
  · rw [hrow] at hnone
    cases hnone

theorem setStatus_of_stored {id : Id} {row : Issue} (hrow : s.issueById id = some row)
    (status : IssueStatus) (now : Timestamp) :
    setStatus B id status now s =
      (B.rowToIssue (row.withStatus B status now),
        s.modifyIssue id (Issue.withStatus B status now)) := by
  simp only [setStatus, updateReturning, hrow]

end Upserts

/-- A first event of project 0. -/
def firstEvent : IngestInput where
  projectId := 0
  eventId := "fc6d8c0c43fc4630ad850ee518f1b9d0"
  normalized := ⟨none, none, none, none, none, []⟩
  payload := .null

def oneGroup : Grouping := ⟨fun _ => "fp", fun _ => "boom", fun _ => none⟩

def projectOnly : Store := sqliteDb.after [.store (.createProject 1000 0)] .empty

def quietAmbient : Ambient := ⟨fun _ => "abc123", .atSecond 1⟩

theorem projectOnly_reachable : SqliteReachable projectOnly :=
  sqliteReachable_after (by simp [SqliteCmd.Admissible, StoreCmd.Admissible])

end Soika
