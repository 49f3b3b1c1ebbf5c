import Soika.Grouping.SqlitePipeline

/-! # What an ingest counts and stores

The counter of each group of issues and the rows under each event id, before and
after one ingest on SQLite. The counter moves with the upsert, whatever happens
after it; the event row is there only when its insert goes through.
-/

namespace Soika

open Table Interaction

namespace Store

/-- The counter of the issue that holds a fingerprint in a project; 0 where there is none. -/
def eventCountOf (s : Store) (group : Id × String) : ℤ :=
  ((lookup groupOf group s.issues).map Issue.eventCount).getD 0

/-- How many event rows of a project have an event id. -/
def copiesOf (s : Store) (projectId : Id) (eventId : String) : ℕ :=
  s.events.countP fun e => e.projectId = projectId && e.eventId = eventId

variable {s s' : Store} {group : Id × String}

theorem eventCountOf_modifyIssue {f : Issue → Issue} (hg : ∀ i, groupOf (f i) = groupOf i)
    (hc : ∀ i, (f i).eventCount = i.eventCount) (id : Id) :
    (s.modifyIssue id f).eventCountOf group = s.eventCountOf group := by
  rw [eventCountOf, modifyIssue_issues, lookup_modify hg, Option.map_map, eventCountOf]
  congr 2
  funext i
  simp only [Function.comp_apply]
  split <;> simp [hc]

end Store

def SqliteCmd.KeepsEvents : SqliteCmd → Prop
  | store (.countInWindow _ _) => True
  | store (.setStatus _ _ _) => True
  | store (.mute _ _ _) => True
  | _ => False

theorem updateReturning_events {B : Backend} (id : Id) (f : Issue → Issue) (s : Store) :
    (updateReturning B id f s).2.events = s.events := by
  unfold updateReturning
  split <;> rfl

theorem sqliteStep_events {c : SqliteCmd} (h : c.KeepsEvents) (s : Store) :
    (sqliteStep c s).2.events = s.events := by
  cases c with
  | store c =>
    cases c with
    | countInWindow issueId since => rfl
    | setStatus issueId status now => exact updateReturning_events _ _ s
    | mute issueId spec now => exact updateReturning_events _ _ s
    | _ => exact h.elim
  | _ => exact h.elim

theorem exec_events {α : Type} {p : Prog sqliteCalls Error α} (hp : p.Calls SqliteCmd.KeepsEvents)
    (φ : Faults Error) (s : Store) : (sqliteDb.exec p φ s).state.events = s.events :=
  Machine.exec_keeps (m := sqliteDb) (I := fun t => t.events = s.events)
    (fun _ t hc ht => (sqliteStep_events hc t).trans ht) hp φ rfl

def SqliteCmd.KeepsCounts : SqliteCmd → Prop
  | store (.insertEvent _) => True
  | store (.countInWindow _ _) => True
  | store (.setStatus _ _ _) => True
  | _ => False

theorem sqliteStep_eventCountOf {c : SqliteCmd} (h : c.KeepsCounts) (s : Store)
    (group : Id × String) : (sqliteStep c s).2.eventCountOf group = s.eventCountOf group := by
  cases c with
  | store c =>
    cases c with
    | insertEvent new =>
      simp only [sqliteStep, storeStep, insertEvent]
      split_ifs <;> rfl
    | countInWindow issueId since => rfl
    | setStatus issueId status now =>
      simp only [sqliteStep, storeStep, setStatus, updateReturning]
      split
      · exact Store.eventCountOf_modifyIssue (f := Issue.withStatus sqlite status now)
          (fun _ => rfl) (fun _ => rfl) _
      · rfl
    | _ => exact h.elim
  | _ => exact h.elim

theorem exec_eventCountOf {α : Type} {p : Prog sqliteCalls Error α}
    (hp : p.Calls SqliteCmd.KeepsCounts) (φ : Faults Error) (s : Store) (group : Id × String) :
    (sqliteDb.exec p φ s).state.eventCountOf group = s.eventCountOf group :=
  Machine.exec_keeps (m := sqliteDb) (I := fun t => t.eventCountOf group = s.eventCountOf group)
    (fun _ t hc ht => (sqliteStep_eventCountOf hc t group).trans ht) hp φ rfl

theorem foreignKeyViolation_not_busy : (Error.db sqlite.foreignKeyViolation).isBusy = false := by
  have hlower : "FOREIGN KEY constraint failed".toLower.toList =
      "foreign key constraint failed".toList := by
    change (String.map Char.toLower "FOREIGN KEY constraint failed").toList = _
    rw [String.toList_map]
    decide
  simp only [Error.isBusy, sqlite, DbError.isBusyCode, containsText, hlower]
  decide

section Upserts

variable {B : Backend} {s s' : Store} {u : IssueUpsert} {draws : ℕ → String} {o : UpsertOutcome}

theorem upsertOnce_eventCountOf (hs : s.Consistent) (h : upsertOnce B u draws s = .ok (o, s'))
    (group : Id × String) :
    s'.eventCountOf group =
      s.eventCountOf group + if group = (u.projectId, u.fingerprint) then 1 else 0 := by
  rcases upsertOnce_eq_ok.mp h with ⟨row, hrow, -, hb⟩ | ⟨hnone, hi⟩
  · obtain ⟨-, -, rfl⟩ := bumpExisting_eq_ok.mp hb
    obtain ⟨hmem, hp, hf⟩ := Store.issueByFingerprint_mem hrow
    have hgroup : Store.groupOf row = (u.projectId, u.fingerprint) := Prod.ext hp hf
    have hkeep (i : Issue) : Store.groupOf (i.bump B u) = Store.groupOf i := rfl
    rw [Store.eventCountOf, Store.modifyIssue_issues, lookup_modify hkeep, Store.eventCountOf]
    by_cases hg : group = (u.projectId, u.fingerprint)
    · subst hg
      rw [Store.issueByFingerprint] at hrow
      simp [hrow, Issue.bump]
    · cases hl : lookup Store.groupOf group s.issues with
      | none => simp [hg]
      | some i =>
        obtain ⟨hmi, hgi⟩ := lookup_eq_some_mem hl
        have hne : i.id ≠ row.id := by
          intro hid
          rw [hs.issueIds.eq_of_key hmi hmem hid] at hgi
          exact hg (hgi.symm.trans hgroup)
        simp [hg, hne]
  · obtain ⟨code, -, -, -, -, rfl⟩ := insertIssue_eq_ok.mp hi
    simp only [Store.eventCountOf, lookup_append_single]
    by_cases hg : group = (u.projectId, u.fingerprint)
    · subst hg
      rw [Store.issueByFingerprint] at hnone
      simp [hnone, Store.groupOf, Issue.ofUpsert]
    · have hne : Store.groupOf (Issue.ofUpsert B u s.nextId code) ≠ group := fun h => hg h.symm
      simp [hg, hne]

/-- The store refuses an upsert, if it does, with an error that is not transient. -/
theorem upsertOnce_not_busy {e : Error} (h : upsertOnce sqlite u draws s = .error e) :
    e.isBusy = false := by
  have hrow {row : Issue} {e : Error} (h : sqlite.rowToIssue row = .error e) : e.isBusy = false := by
    unfold Backend.rowToIssue at h
    split at h <;> cases h
    rfl
  unfold upsertOnce at h
  split at h
  · rcases bind_eq_error.mp h with h | ⟨current, -, h⟩
    · exact hrow h
    · rcases bind_eq_error.mp h with h | ⟨issue, -, h⟩
      · exact hrow h
      · cases h
  · rcases bind_eq_error.mp h with h | ⟨code, -, h⟩
    · unfold Store.uniqueShortIdOn at h
      split at h <;> cases h
      rfl
    · split at h
      · cases h
        exact foreignKeyViolation_not_busy
      · rcases bind_eq_error.mp h with h | ⟨issue, -, h⟩
        · exact hrow h
        · cases h

end Upserts

section Ingest

variable (G : Grouping) (ambient : Ambient) (input : IngestInput) (seenAt : Timestamp)
  {φ : Faults Error} {s : Store}

theorem ingest_eventCountOf (hs : s.Consistent) (hφ : φ 0 = none) {o : UpsertOutcome} {s' : Store}
    (h : upsertOnce sqlite (input.upsert G seenAt) ambient.draws s = .ok (o, s'))
    (group : Id × String) :
    (sqliteDb.exec (sqliteIngest G ambient input seenAt) φ s).state.eventCountOf group =
      s.eventCountOf group +
        if group = (input.projectId, G.fingerprintNormalized input.normalized) then 1 else 0 := by
  have hcalls : (afterUpsert (sqliteIssues ambient) sqliteEvents
      (G.fingerprintNormalized input.normalized) input seenAt o).Calls SqliteCmd.KeepsCounts :=
    .bind (.ask trivial) fun event =>
      sqlite_afterInsert_calls (fun _ _ => trivial) (fun _ => trivial) _ _ _ _
  rw [exec_sqliteIngest, hφ, h]
  exact (exec_eventCountOf hcalls _ _ group).trans (upsertOnce_eventCountOf hs h group)

/-- An ingest that ends in a transient error has failed on its way to the upsert, or counted. -/
theorem ingest_busy (hs : s.Consistent) {e : Error} (hφ : φ 0 = none)
    (he : (sqliteDb.exec (sqliteIngest G ambient input seenAt) φ s).outcome = .err e)
    (hb : e.isBusy) (group : Id × String) :
    (sqliteDb.exec (sqliteIngest G ambient input seenAt) φ s).state.eventCountOf group =
      s.eventCountOf group +
        if group = (input.projectId, G.fingerprintNormalized input.normalized) then 1 else 0 := by
  cases hu : upsertOnce sqlite (input.upsert G seenAt) ambient.draws s with
  | error e' =>
    rw [exec_sqliteIngest, hφ, hu] at he
    cases he
    rw [upsertOnce_not_busy hu] at hb
    cases hb
  | ok r => exact ingest_eventCountOf G ambient input seenAt hs hφ hu group

theorem ingest_ok (hs : s.Consistent) {outcome : IngestOutcome}
    (h : (sqliteDb.exec (sqliteIngest G ambient input seenAt) φ s).outcome = .ok outcome) :
    (∀ group, (sqliteDb.exec (sqliteIngest G ambient input seenAt) φ s).state.eventCountOf group =
      s.eventCountOf group +
        if group = (input.projectId, G.fingerprintNormalized input.normalized) then 1 else 0) ∧
    ∃ issueId id, (sqliteDb.exec (sqliteIngest G ambient input seenAt) φ s).state.events =
      s.events ++ [(input.newEvent issueId seenAt).row sqlite id] := by
  cases hφ : φ 0 with
  | some e =>
    rw [exec_sqliteIngest, hφ] at h
    cases h
  | none =>
    cases hu : upsertOnce sqlite (input.upsert G seenAt) ambient.draws s with
    | error e =>
      rw [exec_sqliteIngest, hφ, hu] at h
      cases h
    | ok r =>
      obtain ⟨o, s'⟩ := r
      refine ⟨ingest_eventCountOf G ambient input seenAt hs hφ hu, o.issue.id, s'.nextId, ?_⟩
      rw [exec_sqliteIngest, hφ, hu] at h ⊢
      simp only at h ⊢
      rw [exec_afterUpsert_accepted ambient _ _ hs hu] at h ⊢
      cases hφ' : φ.tail 0 with
      | some e =>
        rw [hφ'] at h
        cases h
      | none =>
        exact (exec_events (sqlite_afterInsert_calls (fun _ _ => trivial) (fun _ => trivial)
          _ _ _ _) _ _).trans (congrArg (· ++ _) (upsertOnce_events hu).1)

end Ingest

end Soika
