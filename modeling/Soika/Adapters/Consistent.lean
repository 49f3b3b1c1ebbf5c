import Soika.Adapters.IssueSpec
import Soika.Adapters.Machine

/-! # The schema constraints hold in every state

Keys stay unique and references keep their rows: each statement is checked once,
then every call of either database.
-/

namespace Soika

open Table Interaction

namespace Store.Consistent

variable {s : Store}

/-- An update of rows in place that leaves id, project and fingerprint alone. -/
theorem mapIssues (hs : s.Consistent) {f : Issue → Issue} (hid : ∀ i, (f i).id = i.id)
    (hg : ∀ i, groupOf (f i) = groupOf i) : { s with issues := s.issues.map f }.Consistent where
  projectIds := hs.projectIds
  issueIds := hs.issueIds.map hid
  groups := hs.groups.map hg
  issueProject := by
    intro i hi
    obtain ⟨j, hj, rfl⟩ := List.mem_map.mp hi
    obtain ⟨p, hp, hpj⟩ := hs.issueProject j hj
    exact ⟨p, hp, hpj.trans (congrArg Prod.fst (hg j)).symm⟩
  eventIssue := by
    intro e he
    obtain ⟨i, hi, hie⟩ := hs.eventIssue e he
    exact ⟨f i, List.mem_map_of_mem hi, (hid i).trans hie⟩
  eventProject := hs.eventProject
  issueFresh := by
    intro i hi
    obtain ⟨j, hj, rfl⟩ := List.mem_map.mp hi
    exact hid j ▸ hs.issueFresh j hj
  projectFresh := hs.projectFresh

theorem modifyIssue (hs : s.Consistent) {id : Id} {f : Issue → Issue} (hid : ∀ i, (f i).id = i.id)
    (hg : ∀ i, groupOf (f i) = groupOf i) : (s.modifyIssue id f).Consistent :=
  hs.mapIssues (fun i => by split <;> simp [hid]) (fun i => by split <;> simp [hg])

/-- Giving an issue a fingerprint that no other issue of its project holds. -/
theorem regroup (hs : s.Consistent) {target : Issue} (ht : target ∈ s.issues) {f : Issue → Issue}
    {fingerprint : String} (hid : ∀ i, (f i).id = i.id) (hp : ∀ i, (f i).projectId = i.projectId)
    (hf : ∀ i, (f i).fingerprint = fingerprint)
    (hfree : ∀ i ∈ s.issues, i.projectId = target.projectId → i.fingerprint = fingerprint →
      i.id = target.id) : (s.modifyIssue target.id f).Consistent where
  projectIds := hs.projectIds
  issueIds := hs.issueIds.modify hid
  groups := by
    refine hs.groups.modify_to hs.issueIds fun i hi hit j hj hjt h => hjt ?_
    obtain rfl := hs.issueIds.eq_of_key hi ht hit
    have h₁ : j.projectId = (f i).projectId := congrArg Prod.fst h
    have h₂ : j.fingerprint = (f i).fingerprint := congrArg Prod.snd h
    exact hfree j hj (h₁.trans (hp i)) (h₂.trans (hf i))
  issueProject := by
    intro i hi
    obtain ⟨j, hj, rfl⟩ := mem_modify.mp hi
    obtain ⟨p, hpm, hpj⟩ := hs.issueProject j hj
    exact ⟨p, hpm, by split <;> simp [hpj, hp]⟩
  eventIssue := by
    intro e he
    obtain ⟨i, hi, hie⟩ := hs.eventIssue e he
    exact ⟨_, mem_modify.mpr ⟨i, hi, rfl⟩, by split <;> simp [hie, hid]⟩
  eventProject := hs.eventProject
  issueFresh := by
    intro i hi
    obtain ⟨j, hj, rfl⟩ := mem_modify.mp hi
    have := hs.issueFresh j hj
    split <;> simpa [hid] using this
  projectFresh := hs.projectFresh

theorem removeIssue (hs : s.Consistent) (id : Id) : (s.removeIssue id).Consistent where
  projectIds := hs.projectIds
  issueIds := hs.issueIds.remove
  groups := hs.groups.remove
  issueProject i hi := hs.issueProject i (mem_remove.mp hi).1
  eventIssue := by
    intro e he
    obtain ⟨he, hne⟩ := mem_remove.mp he
    obtain ⟨i, hi, hie⟩ := hs.eventIssue e he
    exact ⟨i, mem_remove.mpr ⟨hi, hie ▸ hne⟩, hie⟩
  eventProject e he := hs.eventProject e (mem_remove.mp he).1
  issueFresh i hi := hs.issueFresh i (mem_remove.mp hi).1
  projectFresh := hs.projectFresh

theorem repointEvents (hs : s.Consistent) (source : Id) {target : Issue} (ht : target ∈ s.issues) :
    (s.repointEvents source target.id).Consistent where
  projectIds := hs.projectIds
  issueIds := hs.issueIds
  groups := hs.groups
  issueProject := hs.issueProject
  eventIssue := by
    intro e he
    obtain ⟨d, hd, rfl⟩ := mem_modify.mp he
    by_cases h : d.issueId = source
    · exact ⟨target, ht, by simp [h]⟩
    · simpa [h] using hs.eventIssue d hd
  eventProject := by
    intro e he
    obtain ⟨d, hd, rfl⟩ := mem_modify.mp he
    have := hs.eventProject d hd
    split <;> simpa using this
  issueFresh := hs.issueFresh
  projectFresh := hs.projectFresh

/-- Deleting events leaves no reference without its row. -/
theorem filterEvents (hs : s.Consistent) (p : Event → Bool) :
    { s with events := s.events.filter p }.Consistent :=
  { hs with
    eventIssue := fun e he => hs.eventIssue e (List.mem_filter.mp he).1
    eventProject := fun e he => hs.eventProject e (List.mem_filter.mp he).1 }

variable {B : Backend} {s' : Store}

theorem bumpExisting (hs : s.Consistent) {row : Issue} {upsert : IssueUpsert} {o : UpsertOutcome}
    (h : bumpExisting B row upsert s = .ok (o, s')) : s'.Consistent := by
  obtain ⟨-, -, rfl⟩ := bumpExisting_eq_ok.mp h
  exact hs.modifyIssue (fun _ => rfl) (fun _ => rfl)

theorem insertIssue (hs : s.Consistent) {upsert : IssueUpsert} {draws : ℕ → String}
    {o : UpsertOutcome} (hn : s.issueByFingerprint upsert.projectId upsert.fingerprint = none)
    (h : insertIssue B upsert draws s = .ok (o, s')) : s'.Consistent := by
  obtain ⟨code, -, hp, -, -, rfl⟩ := insertIssue_eq_ok.mp h
  obtain ⟨p, hp⟩ := Option.isSome_iff_exists.mp hp
  obtain ⟨hpm, hpid⟩ := lookup_eq_some_mem hp
  exact {
    projectIds := hs.projectIds
    issueIds := hs.issueIds.append_single fun i hi => (hs.issueFresh i hi).ne
    groups := hs.groups.append_single fun i hi => lookup_eq_none.mp hn i hi
    issueProject := by
      intro i hi
      rcases List.mem_append.mp hi with hi | hi
      · exact hs.issueProject i hi
      · obtain rfl := List.mem_singleton.mp hi
        exact ⟨p, hpm, hpid⟩
    eventIssue := by
      intro e he
      obtain ⟨i, hi, hie⟩ := hs.eventIssue e he
      exact ⟨i, List.mem_append_left _ hi, hie⟩
    eventProject := hs.eventProject
    issueFresh := by
      intro i hi
      rcases List.mem_append.mp hi with hi | hi
      · exact (hs.issueFresh i hi).trans (Nat.lt_succ_self _)
      · obtain rfl := List.mem_singleton.mp hi
        exact Nat.lt_succ_self _
    projectFresh := fun p hp => (hs.projectFresh p hp).trans (Nat.lt_succ_self _) }

theorem upsertOnce (hs : s.Consistent) {upsert : IssueUpsert} {draws : ℕ → String}
    {o : UpsertOutcome} (h : upsertOnce B upsert draws s = .ok (o, s')) : s'.Consistent := by
  rcases upsertOnce_eq_ok.mp h with ⟨row, -, -, hb⟩ | ⟨hn, hi⟩
  · exact hs.bumpExisting hb
  · exact hs.insertIssue hn hi

theorem renameTo (hs : s.Consistent) {target i : Issue} {fingerprint : String} {now : Timestamp}
    {issueId : Id} (ht : s.issueById issueId = some target)
    (hc : s.collision target fingerprint = none)
    (h : renameTo B target fingerprint now s = .ok (i, s')) : s'.Consistent := by
  obtain ⟨-, -, rfl⟩ := renameTo_eq_ok.mp h
  exact hs.regroup (issueById_mem ht).1 (fun _ => rfl) (fun _ => rfl) (fun _ => rfl)
    (collision_eq_none.mp hc)

theorem mergeInto (hs : s.Consistent) {target source i : Issue} {fingerprint : String}
    {now : Timestamp} {issueId : Id} (ht : s.issueById issueId = some target)
    (hc : s.collision target fingerprint = some source)
    (h : mergeInto B target source fingerprint now s = .ok (i, s')) : s'.Consistent := by
  obtain ⟨-, -, rfl⟩ := mergeInto_eq_ok.mp h
  obtain ⟨hsm, hsp, hsf, hne⟩ := collision_eq_some hc
  have htm := (issueById_mem ht).1
  have hmid := (hs.repointEvents source.id htm).removeIssue source.id
  refine hmid.regroup (mem_remove.mpr ⟨htm, hne.symm⟩) (fun _ => rfl) (fun _ => rfl)
    (fun _ => rfl) fun j hj hjp hjf => ?_
  -- The fingerprint's only holder was the source, which is gone.
  obtain ⟨hj, hjs⟩ := mem_remove.mp hj
  have hg : groupOf j = groupOf source := Prod.ext (hjp.trans hsp.symm) (hjf.trans hsf.symm)
  exact absurd (congrArg Issue.id (hs.groups.eq_of_key hj hsm hg)) hjs

theorem overrideFingerprintOnce (hs : s.Consistent) {issueId : Id} {fingerprint : String}
    {now : Timestamp} {i : Issue}
    (h : overrideFingerprintOnce B issueId fingerprint now s = .ok (i, s')) : s'.Consistent := by
  obtain ⟨target, ht, -, ⟨-, -, rfl⟩ | ⟨-, ⟨source, hc, -, hm⟩ | ⟨hc, hr⟩⟩⟩ :=
    overrideFingerprintOnce_eq_ok.mp h
  · exact hs
  · exact hs.mergeInto ht hc hm
  · exact hs.renameTo ht hc hr

theorem updateReturning (hs : s.Consistent) {f : Issue → Issue} (issueId : Id)
    (hid : ∀ i, (f i).id = i.id) (hg : ∀ i, groupOf (f i) = groupOf i) :
    (updateReturning B issueId f s).2.Consistent := by
  unfold Soika.updateReturning
  split
  · exact hs.modifyIssue hid hg
  · exact hs

theorem insertEvent (hs : s.Consistent) {new : NewEvent} {e : Event}
    (h : insertEvent B new s = .ok (e, s')) : s'.Consistent := by
  unfold Soika.insertEvent at h
  split at h
  · rename_i hfk
    cases h
    simp only [Bool.and_eq_true, Option.isSome_iff_exists] at hfk
    obtain ⟨⟨i, hi⟩, p, hp⟩ := hfk
    exact { hs with
      eventIssue := by
        intro e he
        rcases List.mem_append.mp he with he | he
        · exact hs.eventIssue e he
        · obtain rfl := List.mem_singleton.mp he
          exact ⟨i, issueById_mem hi⟩
      eventProject := by
        intro e he
        rcases List.mem_append.mp he with he | he
        · exact hs.eventProject e he
        · obtain rfl := List.mem_singleton.mp he
          exact ⟨p, lookup_eq_some_mem hp⟩
      issueFresh := fun i hi => (hs.issueFresh i hi).trans (Nat.lt_succ_self _)
      projectFresh := fun p hp => (hs.projectFresh p hp).trans (Nat.lt_succ_self _) }
  · cases h

theorem createProject (hs : s.Consistent) (events days : ℤ) :
    (createProject events days s).2.Consistent :=
  { hs with
    projectIds := hs.projectIds.append_single fun p hp => (hs.projectFresh p hp).ne
    issueProject := by
      intro i hi
      obtain ⟨p, hp, hpi⟩ := hs.issueProject i hi
      exact ⟨p, List.mem_append_left _ hp, hpi⟩
    eventProject := by
      intro e he
      obtain ⟨p, hp, hpe⟩ := hs.eventProject e he
      exact ⟨p, List.mem_append_left _ hp, hpe⟩
    issueFresh := fun i hi => (hs.issueFresh i hi).trans (Nat.lt_succ_self _)
    projectFresh := by
      intro p hp
      rcases List.mem_append.mp hp with hp | hp
      · exact (hs.projectFresh p hp).trans (Nat.lt_succ_self _)
      · obtain rfl := List.mem_singleton.mp hp
        exact Nat.lt_succ_self _ }

theorem updateProject (hs : s.Consistent) (id : Id) (u : ProjectUpdate) :
    (updateProject id u s).2.Consistent := by
  unfold Soika.updateProject
  have hkeep {q : Id} (h : ∃ p ∈ s.projects, p.id = q) :
      ∃ p ∈ modify Project.id id u.apply s.projects, p.id = q := by
    obtain ⟨p, hp, hpq⟩ := h
    exact ⟨_, mem_modify.mpr ⟨p, hp, rfl⟩, by split <;> exact hpq⟩
  split
  · exact { hs with
      projectIds := hs.projectIds.modify (f := u.apply) fun _ => rfl
      issueProject := fun i hi => hkeep (hs.issueProject i hi)
      eventProject := fun e he => hkeep (hs.eventProject e he)
      projectFresh := by
        intro p hp
        obtain ⟨q, hq, rfl⟩ := mem_modify.mp hp
        split <;> exact hs.projectFresh q hq }
  · exact hs

theorem deleteProject (hs : s.Consistent) (id : Id) : (deleteProject id s).2.Consistent where
  projectIds := hs.projectIds.remove
  issueIds := hs.issueIds.remove
  groups := hs.groups.remove
  issueProject := by
    intro i hi
    obtain ⟨hi, hne⟩ := mem_remove.mp hi
    obtain ⟨p, hp, hpi⟩ := hs.issueProject i hi
    exact ⟨p, mem_remove.mpr ⟨hp, hpi ▸ hne⟩, hpi⟩
  eventIssue := by
    intro e he
    simp only [Soika.deleteProject, List.mem_filter, Bool.and_eq_true, List.all_eq_true,
      Bool.or_eq_true, decide_eq_true_eq] at he
    obtain ⟨i, hi, hie⟩ := hs.eventIssue e he.1
    refine ⟨i, mem_remove.mpr ⟨hi, ?_⟩, hie⟩
    rcases he.2.2 i hi with h | h
    · exact absurd hie h
    · exact h
  eventProject := by
    intro e he
    simp only [Soika.deleteProject, List.mem_filter, Bool.and_eq_true, decide_eq_true_eq] at he
    obtain ⟨p, hp, hpe⟩ := hs.eventProject e he.1
    exact ⟨p, mem_remove.mpr ⟨hp, hpe ▸ he.2.1⟩, hpe⟩
  issueFresh i hi := hs.issueFresh i (mem_remove.mp hi).1
  projectFresh p hp := hs.projectFresh p (mem_remove.mp hp).1

theorem storeStep (hs : s.Consistent) (c : StoreCmd) : (storeStep B c s).2.Consistent := by
  cases c with
  | insertEvent new =>
    simp only [Soika.storeStep]
    cases h : Soika.insertEvent B new s with
    | error e => exact hs
    | ok r => exact hs.insertEvent h
  | countInWindow issueId since => exact hs
  | setStatus issueId status now => exact hs.updateReturning _ (fun _ => rfl) fun _ => rfl
  | mute issueId spec now => exact hs.updateReturning _ (fun _ => rfl) fun _ => rfl
  | clearExpiredMutes now =>
    exact hs.mapIssues (fun i => by split <;> rfl) fun i => by split <;> rfl
  | deleteIssue id => exact hs.removeIssue id
  | createProject events days => exact hs.createProject events days
  | updateProject id u => exact hs.updateProject id u
  | deleteProject id => exact hs.deleteProject id
  | findProject id => exact hs
  | projectIdsWithEvents => exact hs
  | pruneEventsOverRetention projectId keep => exact hs.filterEvents _
  | deleteOlderThan projectId cutoff => exact hs.filterEvents _

theorem sqliteStep (hs : s.Consistent) (c : SqliteCmd) : (sqliteStep c s).2.Consistent := by
  cases c with
  | upsert upsert draws =>
    simp only [Soika.sqliteStep]
    cases h : Soika.upsertOnce sqlite upsert draws s with
    | error e => exact hs
    | ok r => exact hs.upsertOnce h
  | overrideFingerprint issueId fingerprint now =>
    simp only [Soika.sqliteStep]
    cases h : Soika.overrideFingerprintOnce sqlite issueId fingerprint now s with
    | error e => exact hs
    | ok r => exact hs.overrideFingerprintOnce h
  | store c => exact hs.storeStep c

theorem sqliteExec (hs : s.Consistent) {α : Type} (p : Prog sqliteCalls Error α)
    (φ : Faults Error) : (sqliteDb.exec p φ s).state.Consistent :=
  Machine.exec_keeps (m := sqliteDb) (fun c _ _ hs => hs.sqliteStep c) (.all p) φ hs

theorem pgStep (hs : s.Consistent) (c : PgCmd) : (pgStep c s).2.Consistent := by
  cases c with
  | lockAndBump upsert =>
    simp only [Soika.pgStep]
    cases h : lockAndBump postgres upsert s with
    | error e => exact hs
    | ok r =>
      rcases lockAndBump_eq_ok.mp h with ⟨row, out, -, -, hb, -⟩ | ⟨-, -, hs'⟩
      · exact hs.bumpExisting hb
      · exact hs' ▸ hs
  | insertOrIgnore upsert draws =>
    simp only [Soika.pgStep]
    cases h : insertOrIgnore postgres upsert draws s with
    | error e => exact hs
    | ok r =>
      rcases insertOrIgnore_eq_ok.mp h with ⟨hn, out, hi, -⟩ | ⟨-, -, -, hs'⟩
      · exact hs.insertIssue hn hi
      · exact hs' ▸ hs
  | lockAndMerge issueId fingerprint now =>
    simp only [Soika.pgStep]
    cases h : lockAndMerge postgres issueId fingerprint now s with
    | error e => exact hs
    | ok r =>
      obtain ⟨target, ht, -, ⟨-, -, hs'⟩ | ⟨-, ⟨source, i, hc, -, hm, -⟩ | ⟨-, -, hs'⟩⟩⟩ :=
        lockAndMerge_eq_ok.mp h
      · exact hs' ▸ hs
      · exact hs.mergeInto ht hc hm
      · exact hs' ▸ hs
  | renameLocked issueId fingerprint now =>
    simp only [Soika.pgStep]
    cases h : renameLocked postgres issueId fingerprint now s with
    | error e => exact hs
    | ok r =>
      obtain ⟨target, ht, hc, hr⟩ := renameLocked_eq_ok.mp h
      exact hs.renameTo ht hc hr
  | store c => exact hs.storeStep c

end Store.Consistent

end Soika
