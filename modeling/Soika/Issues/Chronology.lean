import Mathlib.Logic.Function.Basic
import Mathlib.Order.MinMax
import Soika.Adapters.Consistent
import Soika.Adapters.Write

/-! # Issue chronology

The instants folded into an issue are recorded beside a run. An issue stays
chronological exactly as long as no event is older than the last one its issue
has seen: the update of an existing issue overwrites `last_seen` without looking.
-/

namespace Soika

open Table Interaction

/-- The `seen_at` instants folded into each issue. -/
abbrev History := Id → List Timestamp

/-- What a write folds: the instant of an upsert, or a merged issue's instants. -/
def IssueWrite.fold (B : Backend) (s : Store) (h : History) : IssueWrite → History
  | insert upsert _ => Function.update h s.nextId [B.ts upsert.seenAt]
  | bump row upsert => Function.update h row.id (B.ts upsert.seenAt :: h row.id)
  | merge target source _ _ => Function.update h target.id (h target.id ++ h source.id)
  | _ => h

/-- `first_seen <= last_seen`, and `last_seen` is the maximum of the folded instants. -/
def Issue.Chronological (i : Issue) (seen : List Timestamp) : Prop :=
  i.firstSeen ≤ i.lastSeen ∧ i.lastSeen ∈ seen ∧ ∀ t ∈ seen, t ≤ i.lastSeen

def Chronological (issues : List Issue) (h : History) : Prop :=
  ∀ i ∈ issues, i.Chronological (h i.id)

/-- No issue has an earlier `last_seen` after than before. -/
def NoDecrease (issues issues' : List Issue) : Prop :=
  ∀ i ∈ issues, ∀ j ∈ issues', j.id = i.id → i.lastSeen ≤ j.lastSeen

/-- The event of an update is not older than the last one its issue has seen. -/
def IssueWrite.InOrder (B : Backend) : IssueWrite → Prop
  | bump row upsert => row.lastSeen ≤ B.ts upsert.seenAt
  | _ => True

instance (B : Backend) : (w : IssueWrite) → Decidable (w.InOrder B)
  | .bump row upsert => inferInstanceAs (Decidable (row.lastSeen ≤ B.ts upsert.seenAt))
  | .keep | .insert _ _ | .setStatus _ _ _ | .mute _ _ _ | .clearExpired _ | .merge _ _ _ _
  | .rename _ _ _ | .delete _ | .deleteProject _ => isTrue trivial

section Runs

variable {C : Type} (B : Backend) (step : C → Store → Store) (write : C → Store → IssueWrite)

/-- Every state of a run is chronological and no call decreases a `last_seen`. -/
def ChronologicalRun : List C → Store → History → Prop
  | [], s, h => Chronological s.issues h
  | c :: calls, s, h => Chronological s.issues h ∧ NoDecrease s.issues (step c s).issues ∧
      ChronologicalRun calls (step c s) ((write c s).fold B s h)

def InOrderRun : List C → Store → Prop
  | [], _ => True
  | c :: calls, s => (write c s).InOrder B ∧ InOrderRun calls (step c s)

instance decidableInOrderRun : (calls : List C) → (s : Store) →
    Decidable (InOrderRun B step write calls s)
  | [], _ => isTrue trivial
  | c :: calls, s =>
    haveI := decidableInOrderRun calls (step c s)
    inferInstanceAs (Decidable (_ ∧ _))

end Runs

section Writes

variable {B : Backend} {s s' : Store} {h : History} {id : Id} {f : Issue → Issue}

theorem NoDecrease.refl (hs : s.Consistent) : NoDecrease s.issues s.issues :=
  fun _ hi _ hj hid => (congrArg Issue.lastSeen (hs.issueIds.eq_of_key hi hj hid.symm)).le

theorem NoDecrease.of_mem {rows : List Issue} (hs : s.Consistent)
    (h : ∀ j ∈ rows, ∃ i ∈ s.issues, i.id = j.id ∧ i.lastSeen ≤ j.lastSeen) :
    NoDecrease s.issues rows := by
  intro i hi j hj hid
  obtain ⟨k, hk, hkj, hle⟩ := h j hj
  obtain rfl := hs.issueIds.eq_of_key hi hk (hid.symm.trans hkj.symm)
  exact hle

theorem NoDecrease.modify (hs : s.Consistent) {rows : List Issue} (hsub : ∀ i ∈ rows, i ∈ s.issues)
    (hid : ∀ i, (f i).id = i.id)
    (hf : ∀ i ∈ rows, i.id = id → i.lastSeen ≤ (f i).lastSeen) :
    NoDecrease s.issues (modify Issue.id id f rows) := by
  refine .of_mem hs fun j hj => ?_
  obtain ⟨i, hi, rfl⟩ := mem_modify.mp hj
  refine ⟨i, hsub i hi, ?_⟩
  by_cases h : i.id = id
  · simpa [h, hid] using hf i hi h
  · simp [h]

theorem NoDecrease.remove (hs : s.Consistent) {κ : Type} [DecidableEq κ] (key : Issue → κ) (k : κ) :
    NoDecrease s.issues (Table.remove key k s.issues) :=
  .of_mem hs fun j hj => ⟨j, (mem_remove.mp hj).1, rfl, le_rfl⟩

/-- A write that is in order decreases no `last_seen`. -/
theorem IssueWrite.InOrder.noDecrease (hs : s.Consistent) {w : IssueWrite} (hl : w.Legal s)
    (hw : w.InOrder B) : NoDecrease s.issues (w.apply B s) := by
  have hsub : ∀ i ∈ s.issues, i ∈ s.issues := fun _ hi => hi
  cases w with
  | keep => exact .refl hs
  | insert upsert shortId =>
    intro i hi j hj hid
    rcases List.mem_append.mp hj with hj | hj
    · exact NoDecrease.refl hs i hi j hj hid
    · obtain rfl := List.mem_singleton.mp hj
      exact absurd hid (hs.issueFresh i hi).ne'
  | bump row upsert =>
    refine .modify hs hsub (fun _ => rfl) fun i hi hid => ?_
    obtain rfl := hs.issueIds.eq_of_key hi (Store.issueByFingerprint_mem hl).1 hid
    exact hw
  | setStatus id status now => exact .modify hs hsub (fun _ => rfl) fun _ _ _ => le_rfl
  | mute id spec now => exact .modify hs hsub (fun _ => rfl) fun _ _ _ => le_rfl
  | clearExpired now =>
    refine .of_mem hs fun j hj => ?_
    obtain ⟨i, hi, rfl⟩ := List.mem_map.mp hj
    refine ⟨i, hi, ?_⟩
    split <;> exact ⟨rfl, le_rfl⟩
  | merge target source fingerprint now =>
    exact .modify hs (fun i hi => (mem_remove.mp hi).1) (fun _ => rfl)
      fun _ _ _ => le_max_left _ _
  | rename target fingerprint now => exact .modify hs hsub (fun _ => rfl) fun _ _ _ => le_rfl
  | delete id => exact .remove hs _ _
  | deleteProject id => exact .remove hs _ _

/-- An update out of order decreases the `last_seen` of its issue. -/
theorem IssueWrite.inOrder_of_noDecrease {w : IssueWrite} (hl : w.Legal s)
    (hn : NoDecrease s.issues (w.apply B s)) : w.InOrder B := by
  cases w with
  | bump row upsert =>
    have hrow := (Store.issueByFingerprint_mem hl).1
    exact hn row hrow (row.bump B upsert) (mem_modify.mpr ⟨row, hrow, if_pos rfl⟩) rfl
  | _ => exact trivial

theorem Chronological.modify {rows : List Issue} (hc : ∀ i ∈ rows, i.Chronological (h i.id))
    (hid : ∀ i, (f i).id = i.id) (hfirst : ∀ i, (f i).firstSeen = i.firstSeen)
    (hlast : ∀ i, (f i).lastSeen = i.lastSeen) :
    Chronological (Table.modify Issue.id id f rows) h := by
  intro j hj
  obtain ⟨i, hi, rfl⟩ := mem_modify.mp hj
  by_cases heq : i.id = id
  · simpa [heq, Issue.Chronological, hid, hfirst, hlast] using hc i hi
  · simpa [heq] using hc i hi

theorem Issue.Chronological.bump {i : Issue} {seen : List Timestamp} (hc : i.Chronological seen)
    {upsert : IssueUpsert} (hle : i.lastSeen ≤ B.ts upsert.seenAt) :
    (i.bump B upsert).Chronological (B.ts upsert.seenAt :: seen) := by
  refine ⟨hc.1.trans hle, List.mem_cons_self, fun t ht => ?_⟩
  rcases List.mem_cons.mp ht with rfl | ht
  · exact le_rfl
  · exact (hc.2.2 t ht).trans hle

theorem Issue.Chronological.absorb {target source : Issue} {seen seen' : List Timestamp}
    (ht : target.Chronological seen) (hs : source.Chronological seen') (fingerprint : String)
    (now : Timestamp) :
    (Issue.absorb B source fingerprint now target).Chronological (seen ++ seen') := by
  refine ⟨(min_le_left _ _).trans (ht.1.trans (le_max_left _ _)), ?_, fun t hmem => ?_⟩
  · rw [List.mem_append]
    rcases max_choice target.lastSeen source.lastSeen with hmax | hmax
    · exact .inl (by simpa [Issue.absorb, hmax] using ht.2.1)
    · exact .inr (by simpa [Issue.absorb, hmax] using hs.2.1)
  · rcases List.mem_append.mp hmem with hmem | hmem
    · exact (ht.2.2 t hmem).trans (le_max_left _ _)
    · exact (hs.2.2 t hmem).trans (le_max_right _ _)

theorem IssueWrite.InOrder.chronological (hs : s.Consistent) {w : IssueWrite} (hl : w.Legal s)
    (hw : w.InOrder B) (hc : Chronological s.issues h) :
    Chronological (w.apply B s) (w.fold B s h) := by
  cases w with
  | keep => exact hc
  | insert upsert shortId =>
    intro j hj
    simp only [IssueWrite.fold]
    rcases List.mem_append.mp hj with hj | hj
    · rw [Function.update_of_ne (hs.issueFresh j hj).ne]
      exact hc j hj
    · obtain rfl := List.mem_singleton.mp hj
      simp [Issue.Chronological, Issue.ofUpsert]
  | bump row upsert =>
    intro j hj
    obtain ⟨i, hi, rfl⟩ := mem_modify.mp hj
    simp only [IssueWrite.fold]
    by_cases hid : i.id = row.id
    · obtain rfl := hs.issueIds.eq_of_key hi (Store.issueByFingerprint_mem hl).1 hid
      have hself : (i.bump B upsert).id = i.id := rfl
      rw [if_pos rfl, hself, Function.update_self]
      exact (hc i hi).bump hw
    · simpa [hid] using hc i hi
  | setStatus id status now => exact .modify hc (fun _ => rfl) (fun _ => rfl) fun _ => rfl
  | mute id spec now => exact .modify hc (fun _ => rfl) (fun _ => rfl) fun _ => rfl
  | clearExpired now =>
    intro j hj
    obtain ⟨i, hi, rfl⟩ := List.mem_map.mp hj
    split <;> exact hc i hi
  | merge target source fingerprint now =>
    intro j hj
    obtain ⟨i, hi, rfl⟩ := mem_modify.mp hj
    have hi := (mem_remove.mp hi).1
    simp only [IssueWrite.fold]
    by_cases hid : i.id = target.id
    · obtain rfl := hs.issueIds.eq_of_key hi (Store.issueById_mem hl.1).1 hid
      have hsource := hc source (Store.collision_eq_some hl.2).1
      have hself : (Issue.absorb B source fingerprint now i).id = i.id := rfl
      rw [if_pos rfl, hself, Function.update_self]
      exact (hc i hi).absorb hsource fingerprint now
    · simpa [hid] using hc i hi
  | rename target fingerprint now => exact .modify hc (fun _ => rfl) (fun _ => rfl) fun _ => rfl
  | delete id => exact fun i hi => hc i (mem_remove.mp hi).1
  | deleteProject id => exact fun i hi => hc i (mem_remove.mp hi).1

end Writes

section Runs

variable {C : Type} {B : Backend} {step : C → Store → Store} {write : C → Store → IssueWrite}

theorem chronologicalRun_iff (hcommits : ∀ c s, Commits B (write c s) s (step c s))
    (hconsistent : ∀ c (s : Store), s.Consistent → (step c s).Consistent) (calls : List C)
    {s : Store} {h : History} (hs : s.Consistent) (hc : Chronological s.issues h) :
    ChronologicalRun B step write calls s h ↔ InOrderRun B step write calls s := by
  induction calls generalizing s h with
  | nil => exact ⟨fun _ => trivial, fun _ => hc⟩
  | cons c calls ih =>
    obtain ⟨hissues, hl⟩ := hcommits c s
    simp only [ChronologicalRun, InOrderRun]
    constructor
    · rintro ⟨-, hn, hrest⟩
      have hw := IssueWrite.inOrder_of_noDecrease hl (hissues ▸ hn)
      have hc' : Chronological (step c s).issues ((write c s).fold B s h) :=
        hissues ▸ hw.chronological hs hl hc
      exact ⟨hw, (ih (hconsistent c s hs) hc').mp hrest⟩
    · rintro ⟨hw, hrest⟩
      have hc' : Chronological (step c s).issues ((write c s).fold B s h) :=
        hissues ▸ hw.chronological hs hl hc
      exact ⟨hc, hissues ▸ hw.noDecrease hs hl, (ih (hconsistent c s hs) hc').mpr hrest⟩

end Runs

theorem chronological_empty (h : History) : Chronological Store.empty.issues h := by
  simp [Chronological, Store.empty]

/-- The run of calls on SQLite, from the empty store, is chronological. -/
def SqliteChronological (calls : List SqliteCmd) : Prop :=
  ChronologicalRun sqlite (fun c s => (sqliteStep c s).2) sqliteWrite calls .empty fun _ => []

/-- Each update of the run on SQLite is in order. -/
def SqliteInOrder (calls : List SqliteCmd) : Prop :=
  InOrderRun sqlite (fun c s => (sqliteStep c s).2) sqliteWrite calls .empty

def PgChronological (calls : List PgCmd) : Prop :=
  ChronologicalRun postgres (fun c s => (pgStep c s).2) pgWrite calls .empty fun _ => []

def PgInOrder (calls : List PgCmd) : Prop :=
  InOrderRun postgres (fun c s => (pgStep c s).2) pgWrite calls .empty

/-- On either database a run is chronological iff no update is older than its issue's last one. -/
theorem issue_chronology_iff (calls : List SqliteCmd) (calls' : List PgCmd) :
    (SqliteChronological calls ↔ SqliteInOrder calls) ∧ (PgChronological calls' ↔ PgInOrder calls') :=
  ⟨chronologicalRun_iff sqliteStep_commits (fun c _ hs => hs.sqliteStep c) calls
      Store.consistent_empty (chronological_empty _),
    chronologicalRun_iff pgStep_commits (fun c _ hs => hs.pgStep c) calls'
      Store.consistent_empty (chronological_empty _)⟩

/-- Two events of one fingerprint, the second stamped before the first. -/
def lateCalls : List SqliteCmd := [
  .store (.createProject 1000 0),
  .upsert ⟨0, "fp", "boom", none, none, none, none, .atSecond 2⟩ fun _ => "abc123",
  .upsert ⟨0, "fp", "boom", none, none, none, none, .atSecond 1⟩ fun _ => "abc123"]

/-- The late event moves `last_seen` back, before the `first_seen` of its issue. -/
theorem lateCalls_not_chronological :
    (sqliteDb.after lateCalls .empty).issues.map (fun i => (i.firstSeen, i.lastSeen)) =
      [(.atSecond 2, .atSecond 1)] ∧ ¬ SqliteChronological lateCalls := by
  refine ⟨by decide, fun h => ?_⟩
  have horder : SqliteInOrder lateCalls :=
    (chronologicalRun_iff sqliteStep_commits (fun c _ hs => hs.sqliteStep c) lateCalls
      Store.consistent_empty (chronological_empty _)).mp h
  exact absurd horder (by unfold SqliteInOrder; decide)

end Soika
