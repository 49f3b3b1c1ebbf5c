import Soika.Adapters.Issue

/-! # What the issue transactions do

One lemma for each transaction: when it succeeds, what it returns and what it
commits. Later proofs use these and do not open the transactions again.
-/

namespace Soika

open Table

variable {B : Backend} {s s' : Store}

theorem rowToIssue_bind_eq_ok {β : Type} {row : Issue} {f : Issue → Except Error β} {b : β} :
    (B.rowToIssue row >>= f) = .ok b ↔ B.Readable row ∧ f row = .ok b := by
  simp only [bind_eq_ok, Backend.rowToIssue_eq_ok, and_assoc, exists_eq_left]

theorem bumpExisting_eq_ok {current : Issue} {upsert : IssueUpsert} {o : UpsertOutcome} :
    bumpExisting B current upsert s = .ok (o, s') ↔
      B.Readable (current.bump B upsert) ∧
      o = ⟨current.bump B upsert, false, current.status = .resolved⟩ ∧
      s' = s.modifyIssue current.id (Issue.bump B upsert) := by
  rw [bumpExisting, rowToIssue_bind_eq_ok]
  simp only [pure, Except.pure, Except.ok.injEq, Prod.mk.injEq, eq_comm]

theorem insertIssue_eq_ok {upsert : IssueUpsert} {draws : ℕ → String} {o : UpsertOutcome} :
    insertIssue B upsert draws s = .ok (o, s') ↔
      ∃ code, s.uniqueShortIdOn draws = .ok code ∧
        (s.projectById upsert.projectId).isSome ∧
        B.Readable (Issue.ofUpsert B upsert s.nextId code) ∧
        o = ⟨Issue.ofUpsert B upsert s.nextId code, true, false⟩ ∧
        s' = { s with
          issues := s.issues ++ [Issue.ofUpsert B upsert s.nextId code], nextId := s.nextId + 1 } := by
  simp only [insertIssue, bind_eq_ok]
  refine exists_congr fun code => and_congr_right fun _ => ?_
  cases s.projectById upsert.projectId with
  | none => simp
  | some p =>
    simp only [Option.isSome_some, true_and]
    rw [rowToIssue_bind_eq_ok]
    simp only [pure, Except.pure, Except.ok.injEq, Prod.mk.injEq, eq_comm]

theorem upsertOnce_eq_ok {upsert : IssueUpsert} {draws : ℕ → String} {o : UpsertOutcome} :
    upsertOnce B upsert draws s = .ok (o, s') ↔
      (∃ row, s.issueByFingerprint upsert.projectId upsert.fingerprint = some row ∧
        B.Readable row ∧ bumpExisting B row upsert s = .ok (o, s')) ∨
      s.issueByFingerprint upsert.projectId upsert.fingerprint = none ∧
        insertIssue B upsert draws s = .ok (o, s') := by
  unfold upsertOnce
  cases h : s.issueByFingerprint upsert.projectId upsert.fingerprint with
  | none => simp
  | some row => simp [rowToIssue_bind_eq_ok]

theorem lockAndBump_eq_ok {upsert : IssueUpsert} {o : Option UpsertOutcome} :
    lockAndBump B upsert s = .ok (o, s') ↔
      (∃ row out, s.issueByFingerprint upsert.projectId upsert.fingerprint = some row ∧
        B.Readable row ∧ bumpExisting B row upsert s = .ok (out, s') ∧ o = some out) ∨
      s.issueByFingerprint upsert.projectId upsert.fingerprint = none ∧ o = none ∧ s' = s := by
  unfold lockAndBump
  cases h : s.issueByFingerprint upsert.projectId upsert.fingerprint with
  | none => simp [pure, Except.pure, eq_comm]
  | some row =>
    rw [rowToIssue_bind_eq_ok]
    simp only [bind_eq_ok, Option.some.injEq, reduceCtorEq, false_and, or_false]
    constructor
    · rintro ⟨hr, ⟨out, t⟩, hb, h⟩
      cases h
      exact ⟨_, out, rfl, hr, hb, rfl⟩
    · rintro ⟨_, out, rfl, hr, hb, rfl⟩
      exact ⟨hr, ⟨out, s'⟩, hb, rfl⟩

theorem insertOrIgnore_eq_ok {upsert : IssueUpsert} {draws : ℕ → String}
    {o : Option UpsertOutcome} :
    insertOrIgnore B upsert draws s = .ok (o, s') ↔
      (s.issueByFingerprint upsert.projectId upsert.fingerprint = none ∧
        ∃ out, insertIssue B upsert draws s = .ok (out, s') ∧ o = some out) ∨
      (s.issueByFingerprint upsert.projectId upsert.fingerprint).isSome ∧
        (∃ code, s.uniqueShortIdOn draws = .ok code) ∧ o = none ∧ s' = s := by
  unfold insertOrIgnore
  cases h : s.issueByFingerprint upsert.projectId upsert.fingerprint with
  | none =>
    simp only [bind_eq_ok, true_and, Option.isSome_none, Bool.false_eq_true, false_and, or_false]
    constructor
    · rintro ⟨⟨out, t⟩, hi, h⟩
      cases h
      exact ⟨out, hi, rfl⟩
    · rintro ⟨out, hi, rfl⟩
      exact ⟨⟨out, s'⟩, hi, rfl⟩
  | some row =>
    simp only [bind_eq_ok, reduceCtorEq, false_and, Option.isSome_some, true_and, false_or]
    constructor
    · rintro ⟨code, hc, h⟩
      cases h
      exact ⟨⟨code, hc⟩, rfl, rfl⟩
    · rintro ⟨⟨code, hc⟩, rfl, rfl⟩
      exact ⟨code, hc, rfl⟩

theorem mergeInto_eq_ok {target source i : Issue} {fingerprint : String} {now : Timestamp} :
    mergeInto B target source fingerprint now s = .ok (i, s') ↔
      B.Readable (Issue.absorb B source fingerprint now target) ∧
      i = Issue.absorb B source fingerprint now target ∧
      s' = ((s.repointEvents source.id target.id).removeIssue source.id).modifyIssue target.id
        (Issue.absorb B source fingerprint now) := by
  rw [mergeInto, rowToIssue_bind_eq_ok]
  simp only [pure, Except.pure, Except.ok.injEq, Prod.mk.injEq, eq_comm]

theorem renameTo_eq_ok {target i : Issue} {fingerprint : String} {now : Timestamp} :
    renameTo B target fingerprint now s = .ok (i, s') ↔
      B.Readable (target.withFingerprint B fingerprint now) ∧
      i = target.withFingerprint B fingerprint now ∧
      s' = s.modifyIssue target.id (Issue.withFingerprint B fingerprint now) := by
  rw [renameTo, rowToIssue_bind_eq_ok]
  simp only [pure, Except.pure, Except.ok.injEq, Prod.mk.injEq, eq_comm]

theorem Store.collision_eq_some {target source : Issue} {fingerprint : String}
    (h : s.collision target fingerprint = some source) :
    source ∈ s.issues ∧ source.projectId = target.projectId ∧ source.fingerprint = fingerprint ∧
      source.id ≠ target.id := by
  have hp := List.find?_some h
  simp only [Bool.and_eq_true, decide_eq_true_eq] at hp
  exact ⟨List.mem_of_find?_eq_some h, hp.1.1, hp.1.2, hp.2⟩

theorem Store.collision_eq_none {target : Issue} {fingerprint : String} :
    s.collision target fingerprint = none ↔
      ∀ i ∈ s.issues, i.projectId = target.projectId → i.fingerprint = fingerprint →
        i.id = target.id := by
  simp [Store.collision, List.find?_eq_none]

theorem overrideFingerprintOnce_eq_ok {issueId : Id} {fingerprint : String} {now : Timestamp}
    {i : Issue} :
    overrideFingerprintOnce B issueId fingerprint now s = .ok (i, s') ↔
      ∃ target, s.issueById issueId = some target ∧ B.Readable target ∧
        (target.fingerprint = fingerprint ∧ i = target ∧ s' = s ∨
        target.fingerprint ≠ fingerprint ∧
          ((∃ source, s.collision target fingerprint = some source ∧ B.Readable source ∧
            mergeInto B target source fingerprint now s = .ok (i, s')) ∨
          s.collision target fingerprint = none ∧
            renameTo B target fingerprint now s = .ok (i, s'))) := by
  unfold overrideFingerprintOnce
  cases h : s.issueById issueId with
  | none => simp
  | some target =>
    simp only [rowToIssue_bind_eq_ok, Option.some.injEq, exists_eq_left']
    refine and_congr_right fun _ => ?_
    by_cases hf : target.fingerprint = fingerprint
    · simp only [hf, if_true, pure, Except.pure, true_and, ne_eq, not_true, false_and, or_false]
      constructor
      · rintro ⟨⟩; exact ⟨rfl, rfl⟩
      · rintro ⟨rfl, rfl⟩; rfl
    · simp only [hf, if_false, false_and, false_or, ne_eq, not_false_eq_true, true_and]
      cases hc : s.collision target fingerprint with
      | none => simp
      | some source => simp [rowToIssue_bind_eq_ok]

theorem lockAndMerge_eq_ok {issueId : Id} {fingerprint : String} {now : Timestamp}
    {o : Option Issue} :
    lockAndMerge B issueId fingerprint now s = .ok (o, s') ↔
      ∃ target, s.issueById issueId = some target ∧ B.Readable target ∧
        (target.fingerprint = fingerprint ∧ o = some target ∧ s' = s ∨
        target.fingerprint ≠ fingerprint ∧
          ((∃ source i, s.collision target fingerprint = some source ∧ B.Readable source ∧
            mergeInto B target source fingerprint now s = .ok (i, s') ∧ o = some i) ∨
          s.collision target fingerprint = none ∧ o = none ∧ s' = s)) := by
  unfold lockAndMerge
  cases h : s.issueById issueId with
  | none => simp
  | some target =>
    simp only [rowToIssue_bind_eq_ok, Option.some.injEq, exists_eq_left']
    refine and_congr_right fun _ => ?_
    by_cases hf : target.fingerprint = fingerprint
    · simp only [hf, if_true, pure, Except.pure, true_and, ne_eq, not_true, false_and, or_false]
      constructor
      · rintro ⟨⟩; exact ⟨rfl, rfl⟩
      · rintro ⟨rfl, rfl⟩; rfl
    · simp only [hf, if_false, false_and, false_or, ne_eq, not_false_eq_true, true_and]
      cases hc : s.collision target fingerprint with
      | none => simp [pure, Except.pure, eq_comm]
      | some source =>
        rw [rowToIssue_bind_eq_ok]
        simp only [bind_eq_ok, Option.some.injEq, reduceCtorEq, false_and, or_false]
        constructor
        · rintro ⟨hr, ⟨i, t⟩, hm, h⟩
          cases h
          exact ⟨_, i, rfl, hr, hm, rfl⟩
        · rintro ⟨_, i, rfl, hr, hm, rfl⟩
          exact ⟨hr, ⟨i, s'⟩, hm, rfl⟩

theorem renameLocked_eq_ok {issueId : Id} {fingerprint : String} {now : Timestamp} {i : Issue} :
    renameLocked B issueId fingerprint now s = .ok (i, s') ↔
      ∃ target, s.issueById issueId = some target ∧ s.collision target fingerprint = none ∧
        renameTo B target fingerprint now s = .ok (i, s') := by
  unfold renameLocked
  cases h : s.issueById issueId with
  | none => simp
  | some target => cases hc : s.collision target fingerprint <;> simp [hc]

end Soika
