import Soika.Grouping.Phases

/-! # Operator actions during an ingest

An operator resolves, unmutes or mutes an issue while an ingest of it is under
way. The action stands unless the ingest still has to write the status for which
it has decided, or will decide, on its snapshot.
-/

namespace Soika

open Interaction

inductive OperatorAction where
  | resolve
  | unmute
  | mute (spec : MuteSpec)

namespace OperatorAction

def call (issueId : Id) (now : Timestamp) : OperatorAction → SqliteCmd
  | resolve => .store (.setStatus issueId .resolved now)
  | unmute => .store (.setStatus issueId .unresolved now)
  | mute spec => .store (.mute issueId spec now)

/-- The status and mute columns that the operator asked for. -/
def standing (now : Timestamp) : OperatorAction → Issue.Standing
  | resolve => ⟨.resolved, none, none, none, none⟩
  | unmute => ⟨.unresolved, none, none, none, none⟩
  | mute .forever => ⟨.muted, some now, none, none, none⟩
  | mute (.until t) => ⟨.muted, some now, some t, none, none⟩
  | mute (.eventRate threshold windowSeconds) =>
    ⟨.muted, some now, none, some threshold, some windowSeconds⟩

/-- What the action does to a row. -/
def write (now : Timestamp) : OperatorAction → Issue → Issue
  | resolve => Issue.withStatus sqlite .resolved now
  | unmute => Issue.withStatus sqlite .unresolved now
  | mute spec => Issue.withMute sqlite spec now

theorem write_standing (op : OperatorAction) (now : Timestamp) (i : Issue) :
    (op.write now i).standing = op.standing now := by
  match op with
  | resolve => rfl
  | unmute => rfl
  | mute .forever => rfl
  | mute (.until t) => rfl
  | mute (.eventRate threshold windowSeconds) => rfl

theorem write_id (op : OperatorAction) (now : Timestamp) (i : Issue) :
    (op.write now i).id = i.id := by
  cases op <;> rfl

theorem sqliteStep_call (op : OperatorAction) {issueId : Id} (now : Timestamp) {s : Store}
    (h : (s.issueById issueId).isSome) :
    (sqliteStep (op.call issueId now) s).2 = s.modifyIssue issueId (op.write now) := by
  obtain ⟨row, hrow⟩ := Option.isSome_iff_exists.mp h
  cases op <;> simp only [call, sqliteStep, storeStep, setStatus, Soika.mute, updateReturning, hrow] <;> rfl

end OperatorAction

/-- The status and mute columns of an issue. -/
def Store.standingOf (s : Store) (x : Id) : Option Issue.Standing :=
  (s.issueById x).map Issue.standing

def resurfacedStanding : Issue.Standing := ⟨.unresolved, none, none, none, none⟩

def ReachesRate (a : Attempt) (o : UpsertOutcome) (count : Timestamp → ℤ) : Prop :=
  ∃ threshold since, rateCheck o.issue a.seenAt = .count threshold since ∧ threshold ≤ count since

/--
The ingest, after the calls it has made, still writes the status: it has not ended, the calls to
come reach the database, and the count is, or will be, at the threshold.
-/
def WritesYet (a : Attempt) (o : UpsertOutcome) (t : IngestThread) (s : Store)
    (faults : List (Option Error)) : Prop :=
  t.rest.ended = false ∧
    match t.history.length with
    | 1 => (s.projectById a.input.projectId).isSome ∧
      ReachesRate a o (countWithCurrent a.seenAt s o.issue.id) ∧ [none, none, none] <+: faults
    | 2 => ReachesRate a o (fun since => countInWindow sqlite o.issue.id since s.events) ∧
      [none, none] <+: faults
    | 3 => [none] <+: faults
    | _ => False

/-- The only thread of a pool goes on alone. -/
def finish (t : IngestThread) (s : Store) (faults : List (Option Error)) : Store :=
  ((⟨s, [t]⟩ : Pool sqliteCalls Error Store IngestOutcome).run sqliteDb
    (faults.map (.thread 0))).state

/-- An issue stands as resurfaced in the new state if `P`, and as it did if not. -/
def StandsBy (P : Prop) (x : Id) (s s' : Store) : Prop :=
  P ∧ s'.standingOf x = some resurfacedStanding ∨ ¬ P ∧ s'.standingOf x = s.standingOf x

theorem StandsBy.congr {P Q : Prop} {x : Id} {s s' : Store} (h : StandsBy P x s s')
    (hPQ : P ↔ Q) : StandsBy Q x s s' := by
  rwa [StandsBy, ← hPQ]

section Finish

variable {G : Grouping} {a : Attempt} {o : UpsertOutcome} {s : Store} (event : Event)
  (h : List IngestStep)

theorem finish_ended {t : IngestThread} (ht : t.rest.ended = true) (s : Store)
    (faults : List (Option Error)) : finish t s faults = s := by
  rw [finish, Pool.run_single_ended sqliteDb ht]

theorem finish_cons (t : IngestThread) (s : Store) (f : Option Error)
    (faults : List (Option Error)) :
    finish t s (f :: faults) =
      finish (t.advance sqliteDb f s).1 (t.advance sqliteDb f s).2 faults := rfl

theorem standingOf_modifyIssue {x : Id} {f : Issue → Issue} (hid : ∀ i, (f i).id = i.id)
    {st : Issue.Standing} (hf : ∀ i, (f i).standing = st) (hx : (s.issueById x).isSome) :
    (s.modifyIssue x f).standingOf x = some st := by
  obtain ⟨row, hrow⟩ := Option.isSome_iff_exists.mp hx
  rw [Store.standingOf, Store.issueById_modifyIssue_self s x hid, hrow, Option.map_some,
    Option.map_some, hf]

theorem standing_withStatus_unresolved (now : Timestamp) (i : Issue) :
    (i.withStatus sqlite .unresolved now).standing = resurfacedStanding := rfl

theorem standsBy_ended {t : IngestThread} (ht : t.rest.ended = true) (x : Id)
    (faults : List (Option Error)) : StandsBy False x s (finish t s faults) := by
  rw [finish_ended ht]
  exact .inr ⟨id, rfl⟩

theorem standsBy_writeStatus (hx : (s.issueById o.issue.id).isSome) (faults : List (Option Error)) :
    StandsBy ([none] <+: faults) o.issue.id s (finish ⟨writeStatus G a o event, h⟩ s faults) := by
  cases faults with
  | nil => exact .inr ⟨by simp, rfl⟩
  | cons f faults =>
    rw [finish_cons, writeStatus, onSqlite, Thread.advance_ask]
    cases f with
    | some e =>
      simp only [Machine.answer_some]
      exact (standsBy_ended rfl _ _).congr (by simp)
    | none =>
      have hself (i : Issue) : (i.withStatus sqlite .unresolved a.ambient.wall).id = i.id := rfl
      have hwritten := standingOf_modifyIssue hself (standing_withStatus_unresolved _) hx
      obtain ⟨row, hrow⟩ := Option.isSome_iff_exists.mp hx
      have hanswer : sqliteDb.answer (.store (.setStatus o.issue.id .unresolved a.ambient.wall)) none
          s = (sqlite.rowToIssue (row.withStatus sqlite .unresolved a.ambient.wall),
            s.modifyIssue o.issue.id (Issue.withStatus sqlite .unresolved a.ambient.wall)) :=
        setStatus_of_stored hrow .unresolved a.ambient.wall
      rw [hanswer]
      refine .inl ⟨by simp, ?_⟩
      cases sqlite.rowToIssue (row.withStatus sqlite .unresolved a.ambient.wall) with
      | error e => rwa [finish_ended rfl]
      | ok issue => rwa [finish_ended rfl]

theorem not_reachesRate (count : Timestamp → ℤ)
    (h : ∀ threshold since, rateCheck o.issue a.seenAt ≠ .count threshold since) :
    ¬ ReachesRate a o count :=
  fun ⟨threshold, since, hc, _⟩ => h threshold since hc

/-- The check writes the status iff its count has reached the rate and both calls go through. -/
theorem standsBy_afterInsert (hx : (s.issueById o.issue.id).isSome)
    (faults : List (Option Error)) :
    StandsBy (ReachesRate a o (fun since => countInWindow sqlite o.issue.id since s.events) ∧
        [none, none] <+: faults) o.issue.id s
      (finish ⟨afterInsert (sqliteIssues a.ambient) sqliteEvents
        (G.fingerprintNormalized a.input.normalized) a.seenAt o event, h⟩ s faults) := by
  unfold afterInsert
  cases hc : rateCheck o.issue a.seenAt with
  | skip =>
    have hnot := not_reachesRate (a := a) (o := o)
      (fun since => countInWindow sqlite o.issue.id since s.events) (by simp [hc])
    exact (standsBy_ended rfl _ _).congr (by simp [hnot])
  | overflow =>
    have hnot := not_reachesRate (a := a) (o := o)
      (fun since => countInWindow sqlite o.issue.id since s.events) (by simp [hc])
    exact (standsBy_ended rfl _ _).congr (by simp [hnot])
  | count threshold since =>
    have hreach : ReachesRate a o (fun since => countInWindow sqlite o.issue.id since s.events) ↔
        threshold ≤ countInWindow sqlite o.issue.id since s.events := by
      constructor
      · rintro ⟨_, _, hc', hle⟩
        rw [hc] at hc'
        cases hc'
        exact hle
      · exact fun hle => ⟨threshold, since, hc, hle⟩
    rw [resurfaceOn, Prog.bind_assoc, hreach]
    cases faults with
    | nil => exact .inr ⟨by simp, rfl⟩
    | cons f faults =>
      have hcall : sqliteEvents.countInWindow o.issue.id since =
          @Prog.ask sqliteCalls Error (.store (.countInWindow o.issue.id since)) := rfl
      rw [finish_cons, hcall, Thread.advance_ask]
      cases f with
      | some e =>
        simp only [Machine.answer_some]
        exact (standsBy_ended rfl _ _).congr (by simp)
      | none =>
        have hanswer : sqliteDb.answer (.store (.countInWindow o.issue.id since)) none s =
            (.ok (countInWindow sqlite o.issue.id since s.events), s) := rfl
        rw [hanswer]
        simp only
        by_cases hn : countInWindow sqlite o.issue.id since s.events < threshold
        · rw [if_pos hn]
          refine (standsBy_ended rfl _ _).congr ?_
          simp [not_le.mpr hn]
        · rw [if_neg hn, Prog.bind_assoc]
          refine StandsBy.congr (standsBy_writeStatus (G := G) event _ hx faults) ?_
          simp [not_lt.mp hn]

/-- The same, before the insert: the current event is counted too. -/
theorem standsBy_afterUpsert (hx : (s.issueById o.issue.id).isSome) (faults : List (Option Error)) :
    StandsBy ((s.projectById a.input.projectId).isSome ∧
        ReachesRate a o (countWithCurrent a.seenAt s o.issue.id) ∧ [none, none, none] <+: faults)
      o.issue.id s
      (finish ⟨afterUpsert (sqliteIssues a.ambient) sqliteEvents
        (G.fingerprintNormalized a.input.normalized) a.input a.seenAt o, h⟩ s faults) := by
  unfold afterUpsert
  cases faults with
  | nil => exact .inr ⟨by simp, rfl⟩
  | cons f faults =>
    have hcall : sqliteEvents.insert (a.input.newEvent o.issue.id a.seenAt) =
        @Prog.ask sqliteCalls Error (.store (.insertEvent (a.input.newEvent o.issue.id a.seenAt))) :=
      rfl
    rw [finish_cons, hcall, Thread.advance_ask]
    cases f with
    | some e =>
      simp only [Machine.answer_some]
      exact (standsBy_ended rfl _ _).congr (by simp)
    | none =>
      have hanswer : sqliteDb.answer (.store (.insertEvent (a.input.newEvent o.issue.id a.seenAt)))
          none s = commit (insertEvent sqlite (a.input.newEvent o.issue.id a.seenAt) s) s := rfl
      have hissue : (s.issueById (a.input.newEvent o.issue.id a.seenAt).issueId).isSome := hx
      rw [hanswer, insertEvent, hissue, Bool.true_and]
      by_cases hp : (s.projectById a.input.projectId).isSome
      · have hp' : (s.projectById (a.input.newEvent o.issue.id a.seenAt).projectId).isSome := hp
        rw [if_pos hp']
        simp only [commit_ok]
        have hcount (since : Timestamp) : countInWindow sqlite o.issue.id since
            (s.withEvent ((a.input.newEvent o.issue.id a.seenAt).row sqlite s.nextId)).events =
              countWithCurrent a.seenAt s o.issue.id since := by
          rw [Store.withEvent_events, countInWindow_append, countWithCurrent]
          simp [NewEvent.row, IngestInput.newEvent, sqlite]
        have hx' : ((s.withEvent ((a.input.newEvent o.issue.id a.seenAt).row sqlite
          s.nextId)).issueById o.issue.id).isSome := hx
        refine StandsBy.congr (standsBy_afterInsert (G := G) _ _ hx' faults) ?_
        rw [funext hcount]
        simp [hp]
      · have hp' : ¬ (s.projectById (a.input.newEvent o.issue.id a.seenAt).projectId).isSome := hp
        rw [if_neg hp']
        exact (standsBy_ended rfl _ _).congr (by simp [hp])

end Finish

/-- The ingest among the calls of others, up to an operator's action. -/
def operatorPool (G : Grouping) (a : Attempt) (turns : List (Turn sqliteCalls Error)) (s : Store) :
    Pool sqliteCalls Error Store IngestOutcome :=
  (Pool.start [a.prog G] s).run sqliteDb turns

/-- The first call of the ingest, its upsert, has returned this snapshot. -/
def Snapshot (G : Grouping) (a : Attempt) (o : UpsertOutcome) (t : IngestThread) : Prop :=
  ∃ before after, t.history.head? = some (upsertStep G a before after (.ok o))

theorem operatorPool_threads (G : Grouping) (a : Attempt) (turns : List (Turn sqliteCalls Error))
    (s : Store) : ∃ t, (operatorPool G a turns s).threads = [t] ∧ Phase G a t.history t.rest := by
  have hsound := (Pool.run_sound (m := sqliteDb) (I := fun _ => True) (fun _ _ _ => trivial) trivial
    (Pool.start_sound [a.prog G] s) turns).2
  obtain ⟨t, ts, hR, htail, hthreads⟩ := List.forall₂_cons_left_iff.mp hsound
  obtain rfl := List.forall₂_nil_left_iff.mp htail
  exact ⟨t, hthreads, phase_of_path hR.path⟩

section

variable {G : Grouping} {a : Attempt} {o : UpsertOutcome} {s : Store}

theorem not_writesYet_of_ended {t : IngestThread} (ht : t.rest.ended = true)
    (faults : List (Option Error)) : ¬ WritesYet a o t s faults :=
  fun h => absurd (ht.symm.trans h.1) Bool.noConfusion

theorem upsertStep_inj {b b' b₁ a₁ : Store} {r : Except Error UpsertOutcome}
    (h : some (upsertStep G a b₁ a₁ r) = some (upsertStep G a b b' (.ok o))) : r = .ok o := by
  simp only [upsertStep, Option.some.injEq, Transition.mk.injEq, heq_eq_eq, true_and] at h
  exact h.2.1

/-- From a snapshot on, the issue ends up as resurfaced iff the ingest writes yet. -/
theorem finish_standsBy {t : IngestThread} (hp : Phase G a t.history t.rest)
    (hsnap : Snapshot G a o t) (hx : (s.issueById o.issue.id).isSome)
    (faults : List (Option Error)) :
    StandsBy (WritesYet a o t s faults) o.issue.id s (finish t s faults) := by
  obtain ⟨rest, h⟩ := t
  obtain ⟨b, b', hhead⟩ := hsnap
  simp only at hp hhead
  by_cases hended : rest.ended = true
  · exact (standsBy_ended hended _ _).congr
      (iff_of_false id (not_writesYet_of_ended hended faults))
  cases hp with
  | unstarted => cases hhead
  | upserted b₁ a₁ o =>
    cases upsertStep_inj hhead
    refine (standsBy_afterUpsert _ hx faults).congr ?_
    simp [WritesYet, Bool.eq_false_iff.mpr hended]
  | @inserted _ _ event hi =>
    obtain ⟨b₁, a₁, b₂, a₂⟩ := hi
    cases upsertStep_inj hhead
    refine (standsBy_afterInsert event _ hx faults).congr ?_
    simp [WritesYet, Bool.eq_false_iff.mpr hended]
  | @exceeded _ _ event hi _ _ hc b₃ a₃ _ hn =>
    obtain ⟨b₁, a₁, b₂, a₂⟩ := hi
    cases upsertStep_inj hhead
    refine (standsBy_writeStatus event _ hx faults).congr ?_
    simp [WritesYet, Bool.eq_false_iff.mpr hended]
  | _ => exact absurd rfl hended

/-- The ingest, the operator's action in the middle of it, and the rest of the ingest. -/
def operatorRun (G : Grouping) (a : Attempt) (turns : List (Turn sqliteCalls Error)) (s : Store)
    (action : SqliteCmd) (faults : List (Option Error)) : Store :=
  (((operatorPool G a turns s).turn sqliteDb (.other action)).run sqliteDb
    (faults.map (.thread 0))).state

theorem standing_eq_resurfaced {op : OperatorAction} (now : Timestamp) :
    op.standing now = resurfacedStanding ↔ op = .unmute := by
  match op with
  | .resolve => simp [OperatorAction.standing, resurfacedStanding]
  | .unmute => simp [OperatorAction.standing, resurfacedStanding]
  | .mute .forever => simp [OperatorAction.standing, resurfacedStanding]
  | .mute (.until t) => simp [OperatorAction.standing, resurfacedStanding]
  | .mute (.eventRate _ _) => simp [OperatorAction.standing, resurfacedStanding]

end

/--
An operator's action on the issue of an ingest, after its snapshot, stands iff it is an unmute or
the ingest does not write the status any more.
-/
theorem operator_action_stands_iff (G : Grouping) (a : Attempt) (o : UpsertOutcome)
    (turns : List (Turn sqliteCalls Error)) (s : Store) (op : OperatorAction) (now : Timestamp)
    (faults : List (Option Error))
    (hsnap : ∀ t ∈ (operatorPool G a turns s).threads, Snapshot G a o t)
    (hx : ((operatorPool G a turns s).state.issueById o.issue.id).isSome) :
    (operatorRun G a turns s (op.call o.issue.id now) faults).standingOf o.issue.id =
        some (op.standing now) ↔
      op = .unmute ∨ ∀ t ∈ (operatorPool G a turns s).threads,
        ¬ WritesYet a o t (operatorPool G a turns s).state faults := by
  obtain ⟨t, ht, hp⟩ := operatorPool_threads G a turns s
  have hacted : (operatorPool G a turns s).turn sqliteDb (.other (op.call o.issue.id now)) =
      ⟨(operatorPool G a turns s).state.modifyIssue o.issue.id (op.write now), [t]⟩ := by
    rw [Pool.turn, ht]
    exact congrArg (Pool.mk · [t]) (op.sqliteStep_call now hx)
  have hstanding := standingOf_modifyIssue (op.write_id now) (op.write_standing now) hx
  have hx' : (((operatorPool G a turns s).state.modifyIssue o.issue.id
      (op.write now)).issueById o.issue.id).isSome := by
    rw [Store.issueById_modifyIssue_self _ _ (op.write_id now), Option.isSome_map]
    exact hx
  rw [ht] at hsnap ⊢
  rw [operatorRun, hacted, List.forall_mem_singleton, ← standing_eq_resurfaced now]
  have hsame : WritesYet a o t ((operatorPool G a turns s).state.modifyIssue o.issue.id
      (op.write now)) faults ↔ WritesYet a o t (operatorPool G a turns s).state faults := Iff.rfl
  rcases finish_standsBy hp (hsnap t List.mem_cons_self) hx' faults with ⟨hw, hst⟩ | ⟨hw, hst⟩
  · refine (congrArg (· = some (op.standing now)) hst).to_iff.trans ?_
    rw [Option.some_inj, eq_comm]
    exact ⟨.inl, fun h => h.resolve_right fun hnot => hnot (hsame.mp hw)⟩
  · exact iff_of_true (hst.trans hstanding) (.inr (mt hsame.mpr hw))

/-- An issue muted until one more event arrives within the hour. -/
def rateMutedStore : Store := sqliteDb.after [
  .upsert (firstEvent.upsert oneGroup (.atSecond 1)) quietAmbient.draws,
  .store (.mute 1 (.eventRate 1 3600) (.atSecond 2))] projectOnly

def secondAttempt : Attempt := ⟨firstEvent, .atSecond 3, quietAmbient⟩

/-- What the second upsert returns: the row muted under the rate, with one more event. -/
def secondSnapshot : UpsertOutcome where
  issue := ((Issue.ofUpsert sqlite (firstEvent.upsert oneGroup (.atSecond 1)) 1 "abc123").withMute
    sqlite (.eventRate 1 3600) (.atSecond 2)).bump sqlite (firstEvent.upsert oneGroup (.atSecond 3))
  isNew := false
  isRegression := false

theorem operator_action_stands_iff_secondSnapshot :
    (operatorRun oneGroup secondAttempt [.thread 0 none] rateMutedStore
        ((OperatorAction.mute .forever).call 1 (.atSecond 4)) [none]).standingOf 1 =
          some ((OperatorAction.mute .forever).standing (.atSecond 4)) ↔
      OperatorAction.mute .forever = .unmute ∨
        ∀ t ∈ (operatorPool oneGroup secondAttempt [.thread 0 none] rateMutedStore).threads,
          ¬ WritesYet secondAttempt secondSnapshot t
            (operatorPool oneGroup secondAttempt [.thread 0 none] rateMutedStore).state [none] := by
  refine operator_action_stands_iff oneGroup secondAttempt secondSnapshot [.thread 0 none]
    rateMutedStore (.mute .forever) (.atSecond 4) [none] ?_ (by decide)
  intro t ht
  obtain rfl := List.mem_singleton.mp ht
  exact ⟨rateMutedStore, _, rfl⟩

/-- A mute forever between the event insert and the count of an ingest does not stand. -/
theorem mute_overwritten :
    SqliteReachable rateMutedStore ∧
      (operatorPool oneGroup secondAttempt [.thread 0 none, .thread 0 none]
        rateMutedStore).threads.map (·.history.length) = [2] ∧
      (operatorRun oneGroup secondAttempt [.thread 0 none, .thread 0 none] rateMutedStore
        ((OperatorAction.mute .forever).call 1 (.atSecond 4)) [none, none]).standingOf 1 =
          some resurfacedStanding ∧
      some resurfacedStanding ≠ some ((OperatorAction.mute .forever).standing (.atSecond 4)) := by
  refine ⟨?_, by decide, by decide, by decide⟩
  exact Machine.Reachable.after projectOnly_reachable
    (by simp [SqliteCmd.Admissible, StoreCmd.Admissible])

end Soika
