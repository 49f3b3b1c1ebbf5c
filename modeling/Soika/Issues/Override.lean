import Soika.Adapters.Consistent

/-! # Fingerprint overrides conserve data

What an operator's merge or split may do to a store, stated on the rows before
and after it, and the proof that the programs of both databases do no more, with
any call failing and with renames that lose races.
-/

namespace Soika

open Table Interaction

/-- The issue takes a fingerprint that nobody in its project holds; nothing else changes. -/
structure Renamed (s s' : Store) (target : Issue) (fingerprint : String) : Prop where
  free : ∀ j ∈ s.issues, j.projectId = target.projectId → j.fingerprint = fingerprint →
    j.id = target.id
  row : ∃ now, s'.issueById target.id =
    some { target with fingerprint := fingerprint, updatedAt := now }
  others : ∀ id, id ≠ target.id → s'.issueById id = s.issueById id
  events : s'.events = s.events
  projects : s'.projects = s.projects

/-- The holder of the fingerprint and its events become part of the issue; nothing else changes. -/
structure Merged (s s' : Store) (target source : Issue) (fingerprint : String) : Prop where
  holder : source ∈ s.issues ∧ source.projectId = target.projectId ∧
    source.fingerprint = fingerprint ∧ source.id ≠ target.id
  row : ∃ now, s'.issueById target.id = some { target with
    fingerprint := fingerprint
    eventCount := target.eventCount + source.eventCount
    firstSeen := min target.firstSeen source.firstSeen
    lastSeen := max target.lastSeen source.lastSeen
    updatedAt := now }
  gone : s'.issueById source.id = none
  others : ∀ id, id ≠ target.id → id ≠ source.id → s'.issueById id = s.issueById id
  events : s'.events =
    s.events.map fun e => if e.issueId = source.id then { e with issueId := target.id } else e
  projects : s'.projects = s.projects

/-- What an override that succeeds with `issue` may have done. -/
def Overridden (s s' : Store) (issueId : Id) (fingerprint : String) (issue : Issue) : Prop :=
  s'.issueById issueId = some issue ∧ ∃ target, s.issueById issueId = some target ∧
    (target.fingerprint = fingerprint ∧ s' = s ∨
    target.fingerprint ≠ fingerprint ∧ Renamed s s' target fingerprint ∨
    target.fingerprint ≠ fingerprint ∧ ∃ source, Merged s s' target source fingerprint)

/-- The result of an override: its effect, or an error on an unchanged state. -/
def OverrideResult (s : Store) (issueId : Id) (fingerprint : String)
    (r : Run Error Store Issue) : Prop :=
  match r.outcome with
  | .ok issue => Overridden s r.state issueId fingerprint issue
  | .err _ => r.state = s
  | .panic => False

variable {B : Backend} {s s' : Store}

theorem renameTo_renamed {target i : Issue} {fingerprint : String} {now : Timestamp}
    {issueId : Id} (ht : s.issueById issueId = some target)
    (hc : s.collision target fingerprint = none)
    (h : renameTo B target fingerprint now s = .ok (i, s')) :
    s'.issueById issueId = some i ∧ Renamed s s' target fingerprint := by
  obtain ⟨-, rfl, rfl⟩ := renameTo_eq_ok.mp h
  obtain ⟨-, rfl⟩ := Store.issueById_mem ht
  have hself (i : Issue) : (i.withFingerprint B fingerprint now).id = i.id := rfl
  have hrow := Store.issueById_modifyIssue_self s target.id hself
  rw [ht, Option.map_some] at hrow
  exact ⟨hrow, Store.collision_eq_none.mp hc, ⟨_, hrow⟩,
    fun id hid => Store.issueById_modifyIssue_ne hself hid, rfl, rfl⟩

/-- After the events are re-pointed the deletion of the source cascades to none of them. -/
theorem remove_repointed (s : Store) {source target : Id} (h : target ≠ source) :
    remove Event.issueId source (s.repointEvents source target).events =
      (s.repointEvents source target).events := by
  refine List.filter_eq_self.mpr fun e he => ?_
  obtain ⟨d, -, rfl⟩ := mem_modify.mp he
  by_cases hd : d.issueId = source <;> simp [hd, h]

theorem mergeInto_merged {target source i : Issue} {fingerprint : String} {now : Timestamp}
    {issueId : Id} (ht : s.issueById issueId = some target)
    (hc : s.collision target fingerprint = some source)
    (h : mergeInto B target source fingerprint now s = .ok (i, s')) :
    s'.issueById issueId = some i ∧ Merged s s' target source fingerprint := by
  obtain ⟨-, rfl, rfl⟩ := mergeInto_eq_ok.mp h
  obtain ⟨-, rfl⟩ := Store.issueById_mem ht
  have hholder := Store.collision_eq_some hc
  have hne : target.id ≠ source.id := hholder.2.2.2.symm
  have hself (i : Issue) : (Issue.absorb B source fingerprint now i).id = i.id := rfl
  set mid := (s.repointEvents source.id target.id).removeIssue source.id
  have hmid : mid.issueById target.id = some target := (Store.issueById_removeIssue_ne hne).trans ht
  have hrow := Store.issueById_modifyIssue_self mid target.id hself
  rw [hmid, Option.map_some] at hrow
  refine ⟨hrow, hholder, ⟨_, hrow⟩, ?_, fun id hid hids => ?_, remove_repointed s hne, rfl⟩
  · exact (Store.issueById_modifyIssue_ne hself hne.symm).trans (Store.issueById_removeIssue_self _)
  · exact (Store.issueById_modifyIssue_ne hself hid).trans (Store.issueById_removeIssue_ne hids)

theorem overrideFingerprintOnce_overridden {issueId : Id} {fingerprint : String}
    {now : Timestamp} {i : Issue}
    (h : overrideFingerprintOnce B issueId fingerprint now s = .ok (i, s')) :
    Overridden s s' issueId fingerprint i := by
  obtain ⟨target, ht, -, ⟨hf, rfl, rfl⟩ | ⟨hf, ⟨source, hc, -, hm⟩ | ⟨hc, hr⟩⟩⟩ :=
    overrideFingerprintOnce_eq_ok.mp h
  · exact ⟨ht, _, ht, .inl ⟨hf, rfl⟩⟩
  · obtain ⟨hi, hmerged⟩ := mergeInto_merged ht hc hm
    exact ⟨hi, target, ht, .inr (.inr ⟨hf, source, hmerged⟩)⟩
  · obtain ⟨hi, hrenamed⟩ := renameTo_renamed ht hc hr
    exact ⟨hi, target, ht, .inr (.inl ⟨hf, hrenamed⟩)⟩

theorem sqlite_overrideResult (ambient : Ambient) (issueId : Id) (fingerprint : String)
    (φ : Faults Error) (s : Store) :
    OverrideResult s issueId fingerprint
      (sqliteDb.exec ((sqliteIssues ambient).overrideFingerprint issueId fingerprint) φ s) := by
  rw [sqliteIssues, sqlite_exec]
  cases φ 0 with
  | some e => rfl
  | none =>
    simp only [sqliteStep]
    cases h : overrideFingerprintOnce sqlite issueId fingerprint ambient.wall s with
    | error e => rfl
    | ok r => exact overrideFingerprintOnce_overridden h

/-- The locked part of an override on PostgreSQL: done, or ready for the rename. -/
theorem lockAndMerge_overridden {issueId : Id} {fingerprint : String} {now : Timestamp}
    {o : Option Issue} (h : lockAndMerge B issueId fingerprint now s = .ok (o, s')) :
    match o with
    | some i => Overridden s s' issueId fingerprint i
    | none => s' = s ∧ ∃ target, s.issueById issueId = some target ∧
        target.fingerprint ≠ fingerprint := by
  obtain ⟨target, ht, -, ⟨hf, rfl, rfl⟩ | ⟨hf, ⟨source, i, hc, -, hm, rfl⟩ | ⟨-, rfl, rfl⟩⟩⟩ :=
    lockAndMerge_eq_ok.mp h
  · exact ⟨ht, _, ht, .inl ⟨hf, rfl⟩⟩
  · obtain ⟨hi, hmerged⟩ := mergeInto_merged ht hc hm
    exact ⟨hi, target, ht, .inr (.inr ⟨hf, source, hmerged⟩)⟩
  · exact ⟨rfl, target, ht, hf⟩

theorem renameLocked_overridden {issueId : Id} {fingerprint : String} {now : Timestamp}
    {i target : Issue} (ht : s.issueById issueId = some target)
    (hf : target.fingerprint ≠ fingerprint)
    (h : renameLocked B issueId fingerprint now s = .ok (i, s')) :
    Overridden s s' issueId fingerprint i := by
  obtain ⟨target', ht', hc, hr⟩ := renameLocked_eq_ok.mp h
  obtain rfl : target' = target := Option.some_inj.mp (ht'.symm.trans ht)
  obtain ⟨hi, hrenamed⟩ := renameTo_renamed ht hc hr
  exact ⟨hi, target', ht, .inr (.inl ⟨hf, hrenamed⟩)⟩

/-- One attempt on PostgreSQL: the override, or an unchanged state after an error or a lost race. -/
theorem pgOverrideFingerprintOnce_result (issueId : Id) (fingerprint : String) (now : Timestamp)
    (φ : Faults Error) (s : Store) :
    let r := pgDb.exec (pgOverrideFingerprintOnce issueId fingerprint now) φ s
    match r.outcome with
    | .ok (some issue) => Overridden s r.state issueId fingerprint issue
    | .ok none => r.state = s
    | .err _ => r.state = s
    | .panic => False := by
  simp only [pgOverrideFingerprintOnce, Prog.bind_eq]
  rw [pg_exec_bind]
  cases φ 0 with
  | some e => rfl
  | none =>
    simp only [pgStep]
    cases h : lockAndMerge postgres issueId fingerprint now s with
    | error e => rfl
    | ok r =>
      obtain ⟨o, s'⟩ := r
      have hlock := lockAndMerge_overridden h
      cases o with
      | some i => exact hlock
      | none =>
        obtain ⟨rfl, target, ht, hf⟩ := hlock
        simp only [commit_ok, Prog.attempt, Prog.call_bind, Prog.ret_bind, Machine.exec_call]
        cases φ.tail 0 with
        | some e =>
          simp only [Machine.answer_some]
          split_ifs <;> rfl
        | none =>
          simp only [Machine.answer_none, pgDb, pgStep]
          cases hr : renameLocked postgres issueId fingerprint now s' with
          | error e =>
            simp only [commit_error]
            split_ifs <;> rfl
          | ok r => exact renameLocked_overridden ht hf hr

theorem pgOverrideFingerprint_result (issueId : Id) (fingerprint : String) (now : Timestamp)
    (attempts : ℕ) (φ : Faults Error) (s : Store) :
    OverrideResult s issueId fingerprint
      (pgDb.exec (pgOverrideFingerprint issueId fingerprint now attempts) φ s) := by
  induction attempts generalizing φ with
  | zero => rfl
  | succ n ih =>
    simp only [pgOverrideFingerprint, Prog.bind_eq, Machine.exec_bind]
    have honce := pgOverrideFingerprintOnce_result issueId fingerprint now φ s
    rcases hrun : pgDb.exec (pgOverrideFingerprintOnce issueId fingerprint now) φ s with
      ⟨(_ | _) | e | _, s', φ'⟩ <;> rw [hrun] at honce
    · obtain rfl : s' = s := honce
      exact ih φ'
    · exact honce
    · exact honce
    · exact honce

/-- An issue that holds the fingerprint already is left alone, on either database. -/
theorem Overridden.again {issueId : Id} {fingerprint : String} {issue : Issue}
    (h : Overridden s s' issueId fingerprint issue) :
    ∃ target, s'.issueById issueId = some target ∧ target.fingerprint = fingerprint := by
  obtain ⟨-, target, ht, ⟨hf, rfl⟩ | ⟨-, hr⟩ | ⟨-, source, hm⟩⟩ := h
  · exact ⟨target, ht, hf⟩
  · obtain ⟨now, hrow⟩ := hr.row
    exact ⟨_, (Store.issueById_mem ht).2 ▸ hrow, rfl⟩
  · obtain ⟨now, hrow⟩ := hm.row
    exact ⟨_, (Store.issueById_mem ht).2 ▸ hrow, rfl⟩

theorem OverrideResult.state_of_held {issueId : Id} {fingerprint : String} {target : Issue}
    {r : Run Error Store Issue} (h : OverrideResult s issueId fingerprint r)
    (ht : s.issueById issueId = some target) (hf : target.fingerprint = fingerprint) :
    r.state = s := by
  rcases r with ⟨issue | e | _, s', φ⟩
  · obtain ⟨-, target', ht', ⟨-, hs⟩ | ⟨hne, -⟩ | ⟨hne, -⟩⟩ := h
    · exact hs
    all_goals
      obtain rfl : target' = target := Option.some_inj.mp (ht'.symm.trans ht)
      exact absurd hf hne
  · exact h
  · exact h.elim

/-- A first override and a second one of the same issue, each under its own clock and faults. -/
def OverrideConserves (s : Store) (issueId : Id) (fingerprint : String)
    (override : Ambient → Faults Error → Store → Run Error Store Issue) : Prop :=
  ∀ (ambient ambient' : Ambient) (φ φ' : Faults Error),
    let first := override ambient φ s
    OverrideResult s issueId fingerprint first ∧
      ((∃ issue, first.outcome = .ok issue) →
        (override ambient' φ' first.state).state = first.state)

theorem overrideConserves_of_result {issueId : Id} {fingerprint : String}
    {override : Ambient → Faults Error → Store → Run Error Store Issue}
    (h : ∀ ambient φ s, OverrideResult s issueId fingerprint (override ambient φ s)) (s : Store) :
    OverrideConserves s issueId fingerprint override := by
  intro ambient ambient' φ φ'
  refine ⟨h ambient φ s, ?_⟩
  rintro ⟨issue, hok⟩
  have hfirst := h ambient φ s
  simp only [OverrideResult, hok] at hfirst
  obtain ⟨target, ht, hf⟩ := hfirst.again
  exact (h ambient' φ' _).state_of_held ht hf

/-- Overrides conserve data on both databases, from any state and with any call failing. -/
theorem override_conserves (s : Store) (issueId : Id) (fingerprint : String) :
    OverrideConserves s issueId fingerprint (fun ambient =>
      sqliteDb.exec ((sqliteIssues ambient).overrideFingerprint issueId fingerprint)) ∧
    OverrideConserves s issueId fingerprint (fun ambient =>
      pgDb.exec ((pgIssues ambient).overrideFingerprint issueId fingerprint)) :=
  ⟨overrideConserves_of_result (fun ambient φ s => sqlite_overrideResult ambient _ _ φ s) s,
    overrideConserves_of_result
      (fun ambient φ s => pgOverrideFingerprint_result _ _ ambient.wall raceAttempts φ s) s⟩

end Soika
