import Soika.Adapters.Consistent
import Soika.Adapters.Write

/-! # The issue row invariant

Which combinations of status, mute columns and counter an issue row can have. It
is proved once for every write to the issues table and from there for every state
of either database.
-/

namespace Soika

open Table Interaction

namespace Issue

structure WellFormed (i : Issue) : Prop where
  muted_iff : i.status = .muted ↔ i.mutedAt.isSome
  cleared : i.status ≠ .muted → i.mutedAt = none ∧ i.mutedUntil = none ∧
    i.muteThreshold = none ∧ i.muteWindowSeconds = none
  oneShape : ¬ (i.mutedUntil.isSome ∧ (i.muteThreshold.isSome ∨ i.muteWindowSeconds.isSome))
  paired : i.muteThreshold.isSome ↔ i.muteWindowSeconds.isSome
  counted : 1 ≤ i.eventCount

variable {B : Backend} {i : Issue}

theorem WellFormed.ofUpsert (upsert : IssueUpsert) (id : Id) (shortId : String) :
    (Issue.ofUpsert B upsert id shortId).WellFormed := by
  constructor <;> simp [Issue.ofUpsert]

theorem WellFormed.bump (h : i.WellFormed) (upsert : IssueUpsert) :
    (i.bump B upsert).WellFormed := by
  have hstatus : (i.bump B upsert).status = .muted ↔ i.status = .muted := by
    simp only [Issue.bump]
    split <;> simp_all
  refine ⟨hstatus.trans h.muted_iff, fun hne => h.cleared (mt hstatus.mpr hne), h.oneShape,
    h.paired, ?_⟩
  have := h.counted
  simp only [Issue.bump]; omega

theorem WellFormed.withStatus (h : i.WellFormed) {status : IssueStatus} (hs : status ≠ .muted)
    (now : Timestamp) : (i.withStatus B status now).WellFormed := by
  refine ⟨?_, fun _ => ⟨rfl, rfl, rfl, rfl⟩, ?_, ?_, h.counted⟩ <;> simp [Issue.withStatus, hs]

theorem WellFormed.withMute (h : i.WellFormed) (spec : MuteSpec) (now : Timestamp) :
    (i.withMute B spec now).WellFormed := by
  refine ⟨?_, fun hne => absurd rfl hne, ?_, ?_, h.counted⟩ <;>
    cases spec <;> simp [Issue.withMute]

theorem WellFormed.absorb (h : i.WellFormed) {source : Issue} (hs : source.WellFormed)
    (fingerprint : String) (now : Timestamp) :
    (Issue.absorb B source fingerprint now i).WellFormed := by
  refine ⟨h.muted_iff, h.cleared, h.oneShape, h.paired, ?_⟩
  have h₁ := h.counted
  have h₂ := hs.counted
  simp only [Issue.absorb]; omega

theorem WellFormed.withFingerprint (h : i.WellFormed) (fingerprint : String) (now : Timestamp) :
    (i.withFingerprint B fingerprint now).WellFormed :=
  ⟨h.muted_iff, h.cleared, h.oneShape, h.paired, h.counted⟩

end Issue

/-- Muting goes through `mute`; `set_status` is only used to resolve and unresolve. -/
def StoreCmd.Admissible : StoreCmd → Prop
  | setStatus _ status _ => status ≠ .muted
  | _ => True

def SqliteCmd.Admissible : SqliteCmd → Prop
  | store c => c.Admissible
  | _ => True

def PgCmd.Admissible : PgCmd → Prop
  | store c => c.Admissible
  | _ => True

def IssueWrite.Admissible : IssueWrite → Prop
  | setStatus _ status _ => status ≠ .muted
  | _ => True

/-- The states of the SQLite database from its first migration on. -/
def SqliteReachable : Store → Prop := sqliteDb.Reachable SqliteCmd.Admissible (· = .empty)

/-- The states of the PostgreSQL database from its first migration on. -/
def PgReachable : Store → Prop := pgDb.Reachable PgCmd.Admissible (· = .empty)

theorem sqliteReachable_empty : SqliteReachable .empty := .of_start rfl

theorem sqliteReachable_after {calls : List SqliteCmd} (h : ∀ c ∈ calls, c.Admissible) :
    SqliteReachable (sqliteDb.after calls .empty) :=
  Machine.Reachable.after sqliteReachable_empty h

section Steps

variable {B : Backend} {s s' : Store}

theorem forall_mem_modify {p : Issue → Prop} {rows : List Issue} {id : Id} {f : Issue → Issue}
    (h : ∀ i ∈ rows, p i) (hf : ∀ i ∈ rows, i.id = id → p (f i)) :
    ∀ i ∈ modify Issue.id id f rows, p i := by
  intro i hi
  obtain ⟨j, hj, rfl⟩ := mem_modify.mp hi
  by_cases hid : j.id = id
  · simpa [hid] using hf j hj hid
  · simpa [hid] using h j hj

theorem IssueWrite.apply_wellFormed {w : IssueWrite} (hw : w.Admissible) (hl : w.Legal s)
    (h : ∀ i ∈ s.issues, i.WellFormed) : ∀ i ∈ w.apply B s, i.WellFormed := by
  cases w with
  | keep => exact h
  | insert upsert shortId =>
    intro i hi
    rcases List.mem_append.mp hi with hi | hi
    · exact h i hi
    · obtain rfl := List.mem_singleton.mp hi
      exact .ofUpsert _ _ _
  | bump row upsert => exact forall_mem_modify h fun i hi _ => (h i hi).bump _
  | setStatus id status now => exact forall_mem_modify h fun i hi _ => (h i hi).withStatus hw _
  | mute id spec now => exact forall_mem_modify h fun i hi _ => (h i hi).withMute _ _
  | clearExpired now =>
    intro i hi
    obtain ⟨j, hj, rfl⟩ := List.mem_map.mp hi
    split
    · exact (h j hj).withStatus (by decide) _
    · exact h j hj
  | merge target source fingerprint now =>
    have hsource := h source (Store.collision_eq_some hl.2).1
    exact forall_mem_modify (fun i hi => h i (mem_remove.mp hi).1)
      fun i hi _ => (h i (mem_remove.mp hi).1).absorb hsource _ _
  | rename target fingerprint now =>
    exact forall_mem_modify h fun i hi _ => (h i hi).withFingerprint _ _
  | delete id => exact fun i hi => h i (mem_remove.mp hi).1
  | deleteProject id => exact fun i hi => h i (mem_remove.mp hi).1

theorem Commits.wellFormed {w : IssueWrite} (hw : w.Admissible) (hc : Commits B w s s')
    (h : ∀ i ∈ s.issues, i.WellFormed) : ∀ i ∈ s'.issues, i.WellFormed :=
  hc.issues ▸ IssueWrite.apply_wellFormed hw hc.legal h

theorem storeWrite_admissible {c : StoreCmd} (h : c.Admissible) : (storeWrite c).Admissible := by
  cases c <;> exact h

theorem upsertWrite_admissible (upsert : IssueUpsert) (s : Store) (o : UpsertOutcome) :
    (upsertWrite upsert s o).Admissible := by
  unfold upsertWrite
  split <;> exact trivial

theorem overrideWrite_admissible (issueId : Id) (fingerprint : String) (now : Timestamp)
    (s : Store) : (overrideWrite issueId fingerprint now s).Admissible := by
  unfold overrideWrite
  repeat' split
  all_goals exact trivial

theorem sqliteWrite_admissible {c : SqliteCmd} (h : c.Admissible) (s : Store) :
    (sqliteWrite c s).Admissible := by
  cases c with
  | upsert upsert draws =>
    simp only [sqliteWrite]
    split
    · exact upsertWrite_admissible _ _ _
    · exact trivial
  | overrideFingerprint issueId fingerprint now =>
    simp only [sqliteWrite]
    split
    · exact overrideWrite_admissible _ _ _ _
    · exact trivial
  | store c => exact storeWrite_admissible h

theorem pgWrite_admissible {c : PgCmd} (h : c.Admissible) (s : Store) :
    (pgWrite c s).Admissible := by
  cases c with
  | lockAndBump upsert =>
    simp only [pgWrite]
    split
    · exact upsertWrite_admissible _ _ _
    · exact trivial
  | insertOrIgnore upsert draws =>
    simp only [pgWrite]
    split
    · exact upsertWrite_admissible _ _ _
    · exact trivial
  | lockAndMerge issueId fingerprint now =>
    simp only [pgWrite]
    split
    · exact overrideWrite_admissible _ _ _ _
    · exact trivial
  | renameLocked issueId fingerprint now =>
    simp only [pgWrite]
    split <;> exact trivial
  | store c => exact storeWrite_admissible h

end Steps

theorem SqliteReachable.consistent {s : Store} (h : SqliteReachable s) : s.Consistent :=
  h.invariant (fun _ h₀ => h₀ ▸ Store.consistent_empty) fun c _ _ hs => hs.sqliteStep c

theorem PgReachable.consistent {s : Store} (h : PgReachable s) : s.Consistent :=
  h.invariant (fun _ h₀ => h₀ ▸ Store.consistent_empty) fun c _ _ hs => hs.pgStep c

theorem SqliteReachable.wellFormed {s : Store} (h : SqliteReachable s) :
    ∀ i ∈ s.issues, i.WellFormed := by
  refine Machine.Reachable.invariant (I := fun s => ∀ i ∈ s.issues, i.WellFormed) ?_ ?_ h
  · rintro _ rfl i hi
    cases hi
  · exact fun c s hc hs => (sqliteStep_commits c s).wellFormed (sqliteWrite_admissible hc s) hs

theorem PgReachable.wellFormed {s : Store} (h : PgReachable s) :
    ∀ i ∈ s.issues, i.WellFormed := by
  refine Machine.Reachable.invariant (I := fun s => ∀ i ∈ s.issues, i.WellFormed) ?_ ?_ h
  · rintro _ rfl i hi
    cases hi
  · exact fun c s hc hs => (pgStep_commits c s).wellFormed (pgWrite_admissible hc s) hs

/-- In every state of either database all issue rows are well formed and fingerprints are unique. -/
theorem issue_rows_invariant (s : Store) (h : SqliteReachable s ∨ PgReachable s) :
    (∀ i ∈ s.issues, i.WellFormed) ∧ UniqueOn Store.groupOf s.issues := by
  have hs : s.Consistent := h.elim (·.consistent) (·.consistent)
  exact ⟨h.elim (·.wellFormed) (·.wellFormed), hs.groups⟩

/-- A project, an issue of it, and a mute of the issue under an event rate. -/
def muteCalls : List SqliteCmd := [
  .store (.createProject 1000 30),
  .upsert ⟨0, "fp", "boom", none, none, none, none, .atSecond 1⟩ fun _ => "abc123",
  .store (.mute 1 (.eventRate 3 3600) (.atSecond 2))]

theorem issue_rows_invariant_muteCalls :
    (∀ i ∈ (sqliteDb.after muteCalls .empty).issues, i.WellFormed) ∧
      UniqueOn Store.groupOf (sqliteDb.after muteCalls .empty).issues :=
  issue_rows_invariant _ (.inl (sqliteReachable_after (by
    simp [muteCalls, SqliteCmd.Admissible, StoreCmd.Admissible])))

example : ((sqliteDb.after muteCalls .empty).issues.map Issue.standing) =
    [⟨.muted, some (.atSecond 2), none, some 3, some 3600⟩] := by decide

end Soika
