import Soika.Adapters.IssueSpec
import Soika.Adapters.Machine

/-! # Writes to the issues table

Every call of either database changes the issues table by one of a few writes.
The write that a call commits is a function of the call and of the state before
it, so invariants of the table are proved once, by cases on the writes.
-/

namespace Soika

open Table

inductive IssueWrite where
  | keep
  | insert (upsert : IssueUpsert) (shortId : String)
  | bump (row : Issue) (upsert : IssueUpsert)
  | setStatus (id : Id) (status : IssueStatus) (now : Timestamp)
  | mute (id : Id) (spec : MuteSpec) (now : Timestamp)
  | clearExpired (now : Timestamp)
  | merge (target source : Issue) (fingerprint : String) (now : Timestamp)
  | rename (target : Issue) (fingerprint : String) (now : Timestamp)
  | delete (id : Id)
  | deleteProject (id : Id)

namespace IssueWrite

/-- The issues table after the write. -/
def apply (B : Backend) (s : Store) : IssueWrite → List Issue
  | keep => s.issues
  | insert upsert shortId => s.issues ++ [Issue.ofUpsert B upsert s.nextId shortId]
  | bump row upsert => modify Issue.id row.id (Issue.bump B upsert) s.issues
  | setStatus id status now => modify Issue.id id (Issue.withStatus B status now) s.issues
  | mute id spec now => modify Issue.id id (Issue.withMute B spec now) s.issues
  | clearExpired now => s.issues.map fun i =>
      if i.muteExpired B now then i.withStatus B .unresolved now else i
  | merge target source fingerprint now =>
    modify Issue.id target.id (Issue.absorb B source fingerprint now)
      (remove Issue.id source.id s.issues)
  | rename target fingerprint now =>
    modify Issue.id target.id (Issue.withFingerprint B fingerprint now) s.issues
  | delete id => remove Issue.id id s.issues
  | deleteProject id => remove Issue.projectId id s.issues

def Legal (s : Store) : IssueWrite → Prop
  | insert upsert _ => s.issueByFingerprint upsert.projectId upsert.fingerprint = none
  | bump row upsert => s.issueByFingerprint upsert.projectId upsert.fingerprint = some row
  | merge target source fingerprint _ =>
    s.issueById target.id = some target ∧ s.collision target fingerprint = some source
  | rename target fingerprint _ =>
    s.issueById target.id = some target ∧ s.collision target fingerprint = none
  | _ => True

end IssueWrite

open IssueWrite

def upsertWrite (upsert : IssueUpsert) (s : Store) (outcome : UpsertOutcome) : IssueWrite :=
  match s.issueByFingerprint upsert.projectId upsert.fingerprint with
  | some row => .bump row upsert
  | none => .insert upsert outcome.issue.shortId

def overrideWrite (issueId : Id) (fingerprint : String) (now : Timestamp) (s : Store) :
    IssueWrite :=
  match s.issueById issueId with
  | none => .keep
  | some target =>
    if target.fingerprint = fingerprint then .keep
    else
      match s.collision target fingerprint with
      | some source => .merge target source fingerprint now
      | none => .rename target fingerprint now

def storeWrite : StoreCmd → IssueWrite
  | .setStatus id status now => .setStatus id status now
  | .mute id spec now => .mute id spec now
  | .clearExpiredMutes now => .clearExpired now
  | .deleteIssue id => .delete id
  | .deleteProject id => .deleteProject id
  | _ => .keep

def sqliteWrite : SqliteCmd → Store → IssueWrite
  | .upsert upsert draws, s =>
    match upsertOnce sqlite upsert draws s with
    | .ok (outcome, _) => upsertWrite upsert s outcome
    | .error _ => .keep
  | .overrideFingerprint issueId fingerprint now, s =>
    match overrideFingerprintOnce sqlite issueId fingerprint now s with
    | .ok _ => overrideWrite issueId fingerprint now s
    | .error _ => .keep
  | .store c, _ => storeWrite c

def pgWrite : PgCmd → Store → IssueWrite
  | .lockAndBump upsert, s =>
    match lockAndBump postgres upsert s with
    | .ok (some outcome, _) => upsertWrite upsert s outcome
    | _ => .keep
  | .insertOrIgnore upsert draws, s =>
    match insertOrIgnore postgres upsert draws s with
    | .ok (some outcome, _) => upsertWrite upsert s outcome
    | _ => .keep
  | .lockAndMerge issueId fingerprint now, s =>
    match lockAndMerge postgres issueId fingerprint now s with
    | .ok (some _, _) => overrideWrite issueId fingerprint now s
    | _ => .keep
  | .renameLocked issueId fingerprint now, s =>
    match s.issueById issueId, renameLocked postgres issueId fingerprint now s with
    | some target, .ok _ => .rename target fingerprint now
    | _, _ => .keep
  | .store c, _ => storeWrite c

structure Commits (B : Backend) (w : IssueWrite) (s s' : Store) : Prop where
  issues : s'.issues = w.apply B s
  legal : w.Legal s

variable {B : Backend} {s s' : Store}

theorem Commits.keep (s : Store) : Commits B .keep s s := ⟨rfl, trivial⟩

theorem bumpExisting_commits {row : Issue} {upsert : IssueUpsert} {o : UpsertOutcome}
    (h : s.issueByFingerprint upsert.projectId upsert.fingerprint = some row)
    (hb : bumpExisting B row upsert s = .ok (o, s')) :
    Commits B (upsertWrite upsert s o) s s' := by
  obtain ⟨-, -, rfl⟩ := bumpExisting_eq_ok.mp hb
  rw [upsertWrite, h]
  exact ⟨rfl, h⟩

theorem insertIssue_commits {upsert : IssueUpsert} {draws : ℕ → String} {o : UpsertOutcome}
    (h : s.issueByFingerprint upsert.projectId upsert.fingerprint = none)
    (hi : insertIssue B upsert draws s = .ok (o, s')) :
    Commits B (upsertWrite upsert s o) s s' := by
  obtain ⟨code, -, -, -, rfl, rfl⟩ := insertIssue_eq_ok.mp hi
  rw [upsertWrite, h]
  exact ⟨rfl, h⟩

theorem upsertOnce_commits {upsert : IssueUpsert} {draws : ℕ → String} {o : UpsertOutcome}
    (h : upsertOnce B upsert draws s = .ok (o, s')) : Commits B (upsertWrite upsert s o) s s' := by
  rcases upsertOnce_eq_ok.mp h with ⟨row, hrow, -, hb⟩ | ⟨hnone, hi⟩
  · exact bumpExisting_commits hrow hb
  · exact insertIssue_commits hnone hi

theorem Store.issueById_id {id : Id} {i : Issue} (h : s.issueById id = some i) :
    s.issueById i.id = some i := by
  rw [(issueById_mem h).2, h]

theorem mergeInto_commits {target source i : Issue} {fingerprint : String} {now : Timestamp}
    {issueId : Id} (ht : s.issueById issueId = some target)
    (hc : s.collision target fingerprint = some source)
    (hm : mergeInto B target source fingerprint now s = .ok (i, s')) :
    Commits B (.merge target source fingerprint now) s s' := by
  obtain ⟨-, -, rfl⟩ := mergeInto_eq_ok.mp hm
  exact ⟨rfl, Store.issueById_id ht, hc⟩

theorem renameTo_commits {target i : Issue} {fingerprint : String} {now : Timestamp} {issueId : Id}
    (ht : s.issueById issueId = some target) (hc : s.collision target fingerprint = none)
    (hr : renameTo B target fingerprint now s = .ok (i, s')) :
    Commits B (.rename target fingerprint now) s s' := by
  obtain ⟨-, -, rfl⟩ := renameTo_eq_ok.mp hr
  exact ⟨rfl, Store.issueById_id ht, hc⟩

theorem overrideFingerprintOnce_commits {issueId : Id} {fingerprint : String} {now : Timestamp}
    {i : Issue} (h : overrideFingerprintOnce B issueId fingerprint now s = .ok (i, s')) :
    Commits B (overrideWrite issueId fingerprint now s) s s' := by
  obtain ⟨target, ht, -, ⟨hf, -, rfl⟩ | ⟨hf, ⟨source, hc, -, hm⟩ | ⟨hc, hr⟩⟩⟩ :=
    overrideFingerprintOnce_eq_ok.mp h
  · simp only [overrideWrite, ht, hf, if_true]
    exact .keep _
  · simp only [overrideWrite, ht, hf, if_false, hc]
    exact mergeInto_commits ht hc hm
  · simp only [overrideWrite, ht, hf, if_false, hc]
    exact renameTo_commits ht hc hr

theorem updateReturning_issues (issueId : Id) (f : Issue → Issue) (s : Store) :
    (updateReturning B issueId f s).2.issues = modify Issue.id issueId f s.issues := by
  unfold updateReturning
  cases h : s.issueById issueId with
  | some row => rfl
  | none => exact (modify_of_lookup_eq_none h).symm

theorem storeStep_commits (c : StoreCmd) (s : Store) :
    Commits B (storeWrite c) s (storeStep B c s).2 := by
  cases c with
  | insertEvent new =>
    refine ⟨?_, trivial⟩
    simp only [storeStep, insertEvent]
    split <;> rfl
  | countInWindow issueId since => exact .keep s
  | setStatus issueId status now => exact ⟨updateReturning_issues .., trivial⟩
  | mute issueId spec now => exact ⟨updateReturning_issues .., trivial⟩
  | clearExpiredMutes now => exact ⟨rfl, trivial⟩
  | deleteIssue id => exact ⟨rfl, trivial⟩
  | createProject events days => exact ⟨rfl, trivial⟩
  | updateProject id u =>
    refine ⟨?_, trivial⟩
    simp only [storeStep, updateProject]
    split <;> rfl
  | deleteProject id => exact ⟨rfl, trivial⟩
  | findProject id => exact .keep s
  | projectIdsWithEvents => exact .keep s
  | pruneEventsOverRetention projectId keep => exact ⟨rfl, trivial⟩
  | deleteOlderThan projectId cutoff => exact ⟨rfl, trivial⟩

theorem sqliteStep_commits (c : SqliteCmd) (s : Store) :
    Commits sqlite (sqliteWrite c s) s (sqliteStep c s).2 := by
  cases c with
  | upsert upsert draws =>
    simp only [sqliteWrite, sqliteStep]
    cases h : upsertOnce sqlite upsert draws s with
    | error e => exact .keep s
    | ok r => exact upsertOnce_commits h
  | overrideFingerprint issueId fingerprint now =>
    simp only [sqliteWrite, sqliteStep]
    cases h : overrideFingerprintOnce sqlite issueId fingerprint now s with
    | error e => exact .keep s
    | ok r => exact overrideFingerprintOnce_commits h
  | store c => exact storeStep_commits c s

theorem pgStep_commits (c : PgCmd) (s : Store) :
    Commits postgres (pgWrite c s) s (pgStep c s).2 := by
  cases c with
  | lockAndBump upsert =>
    simp only [pgWrite, pgStep]
    cases h : lockAndBump postgres upsert s with
    | error e => exact .keep s
    | ok r =>
      obtain ⟨o, s'⟩ := r
      rcases lockAndBump_eq_ok.mp h with ⟨row, out, hrow, -, hb, rfl⟩ | ⟨-, rfl, rfl⟩
      · exact bumpExisting_commits hrow hb
      · exact .keep s'
  | insertOrIgnore upsert draws =>
    simp only [pgWrite, pgStep]
    cases h : insertOrIgnore postgres upsert draws s with
    | error e => exact .keep s
    | ok r =>
      obtain ⟨o, s'⟩ := r
      rcases insertOrIgnore_eq_ok.mp h with ⟨hnone, out, hi, rfl⟩ | ⟨-, -, rfl, rfl⟩
      · exact insertIssue_commits hnone hi
      · exact .keep s'
  | lockAndMerge issueId fingerprint now =>
    simp only [pgWrite, pgStep]
    cases h : lockAndMerge postgres issueId fingerprint now s with
    | error e => exact .keep s
    | ok r =>
      obtain ⟨o, s'⟩ := r
      obtain ⟨target, ht, -, ⟨hf, rfl, rfl⟩ | ⟨hf, ⟨source, i, hc, -, hm, rfl⟩ | ⟨hc, rfl, rfl⟩⟩⟩ :=
        lockAndMerge_eq_ok.mp h
      · simp only [overrideWrite, ht, hf, if_true]
        exact .keep s'
      · simp only [overrideWrite, ht, hf, if_false, hc]
        exact mergeInto_commits ht hc hm
      · exact .keep s'
  | renameLocked issueId fingerprint now =>
    simp only [pgWrite, pgStep]
    cases h : renameLocked postgres issueId fingerprint now s with
    | error e => cases s.issueById issueId <;> exact .keep s
    | ok r =>
      obtain ⟨target, ht, hc, hr⟩ := renameLocked_eq_ok.mp h
      simp only [ht, commit]
      exact renameTo_commits ht hc hr
  | store c => exact storeStep_commits c s

end Soika
