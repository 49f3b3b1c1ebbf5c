import Soika.Grouping.Phases

/-! # Notifications

Which attempts report a new or a reopened issue, over every interleaving of
ingests with each other and with other calls. The report of an attempt is lost
exactly when a later step of that attempt fails.
-/

namespace Soika

open Interaction

/-- The call made an issue that was not there. -/
def creates (x : Id) (e : IngestStep) : Bool :=
  (e.before.issueById x).isNone && (e.after.issueById x).isSome

def Store.statusOf (s : Store) (x : Id) : Option IssueStatus := (s.issueById x).map Issue.status

def reopens (x : Id) (e : IngestStep) : Bool :=
  e.before.statusOf x = some .resolved && e.after.statusOf x = some .unresolved

def isInsert (e : IngestStep) : Bool :=
  match e.call with
  | .store (.insertEvent _) => true
  | _ => false

def isStatusWrite (e : IngestStep) : Bool :=
  match e.call with
  | .store (.setStatus _ _ _) => true
  | _ => false

def failed (e : IngestStep) : Bool :=
  match e.answer with
  | .ok _ => false
  | .error _ => true

def reportsNew (x : Id) (t : IngestThread) : Bool :=
  match t.rest with
  | .ret outcome => outcome.notify = .newIssue && outcome.issue.id = x
  | _ => false

/-- The attempt returned a regression of the issue, other than by resurfacing a muted one. -/
def reportsReopened (x : Id) (t : IngestThread) : Bool :=
  match t.rest with
  | .ret outcome => outcome.notify = .regression && outcome.issue.id = x &&
      (!t.history.any isStatusWrite || t.history.any (reopens x))
  | _ => false

/-- Creations and reopenings of every issue are as many as the outcomes that report them. -/
def NotificationsExact (threads : List IngestThread) : Prop :=
  ∀ x,
    (threads.flatMap Thread.history).countP (creates x) = threads.countP (reportsNew x) ∧
    (threads.flatMap Thread.history).countP (reopens x) = threads.countP (reportsReopened x)

/--
The insert fails in an attempt that has created or reopened an issue, or the row of a status write
that reopened one cannot be read back.
-/
def LosesNotification (h : List IngestStep) : Prop :=
  ((∃ e ∈ h, ∃ x, creates x e ∨ reopens x e) ∧ ∃ e ∈ h, isInsert e ∧ failed e) ∨
    ∃ e ∈ h, isStatusWrite e ∧ failed e ∧ ∃ x, reopens x e

section Steps

variable {G : Grouping} {a : Attempt} {o : UpsertOutcome} {before after : Store} {x : Id}

theorem creates_of_issues_eq {e : IngestStep} (h : e.after.issues = e.before.issues) :
    creates x e = false := by
  simp only [creates, Store.issueById, h]
  cases Table.lookup Issue.id x e.before.issues <;> rfl

theorem reopens_of_status_eq {e : IngestStep} (h : e.after.statusOf x = e.before.statusOf x) :
    reopens x e = false := by
  rw [reopens, h]
  by_cases hr : e.before.statusOf x = some .resolved <;> simp [hr]

theorem reopens_of_issues_eq {e : IngestStep} (h : e.after.issues = e.before.issues) :
    reopens x e = false :=
  reopens_of_status_eq (by rw [Store.statusOf, Store.statusOf, Store.issueById, h]; rfl)

theorem creates_of_modify {e : IngestStep} {id : Id} {f : Issue → Issue}
    (hf : ∀ i, (f i).id = i.id) (h : e.after = e.before.modifyIssue id f) :
    creates x e = false := by
  rw [creates, h]
  by_cases hx : x = id
  · subst hx
    rw [Store.issueById_modifyIssue_self e.before x hf]
    cases e.before.issueById x <;> rfl
  · rw [Store.issueById_modifyIssue_ne hf hx]
    cases e.before.issueById x <;> rfl

theorem creates_upsertStep (hs : before.Consistent)
    (h : (upsertStep G a before after (.ok o)).Sound sqliteDb) :
    creates x (upsertStep G a before after (.ok o)) = (o.isNew && o.issue.id = x) := by
  rcases upsertOnce_eq_ok.mp (upsertStep_ok h) with ⟨row, -, -, hb⟩ | ⟨-, hi⟩
  · obtain ⟨-, rfl, rfl⟩ := bumpExisting_eq_ok.mp hb
    have hself (i : Issue) : (i.bump sqlite (a.input.upsert G a.seenAt)).id = i.id := rfl
    simpa using creates_of_modify hself rfl
  · obtain ⟨code, -, -, -, rfl, rfl⟩ := insertIssue_eq_ok.mp hi
    simp only [creates, upsertStep, Store.issueById, Table.lookup_append_single]
    by_cases hx : before.nextId = x
    · subst hx
      have hnone := hs.issueById_nextId
      rw [Store.issueById] at hnone
      simp [hnone, Issue.ofUpsert]
    · cases hl : Table.lookup Issue.id x before.issues <;> simp [Issue.ofUpsert, hx]

theorem statusOf_modify_ne {s : Store} {id : Id} {f : Issue → Issue} (hf : ∀ i, (f i).id = i.id)
    (hx : x ≠ id) : (s.modifyIssue id f).statusOf x = s.statusOf x := by
  rw [Store.statusOf, Store.issueById_modifyIssue_ne hf hx, Store.statusOf]

theorem reopens_upsertStep (hs : before.Consistent)
    (h : (upsertStep G a before after (.ok o)).Sound sqliteDb) :
    reopens x (upsertStep G a before after (.ok o)) = (o.isRegression && o.issue.id = x) := by
  rcases upsertOnce_eq_ok.mp (upsertStep_ok h) with ⟨row, hrow, -, hb⟩ | ⟨-, hi⟩
  · obtain ⟨-, rfl, rfl⟩ := bumpExisting_eq_ok.mp hb
    have hself (i : Issue) : (i.bump sqlite (a.input.upsert G a.seenAt)).id = i.id := rfl
    rw [hself]
    by_cases hx : x = row.id
    · subst hx
      have hmem := hs.issueById_of_mem (Store.issueByFingerprint_mem hrow).1
      simp only [reopens, upsertStep, Store.statusOf,
        Store.issueById_modifyIssue_self before row.id hself, hmem]
      by_cases hr : row.status = .resolved <;> simp [Issue.bump, hr]
    · rw [reopens_of_status_eq (statusOf_modify_ne hself hx)]
      simp [Ne.symm hx]
  · obtain ⟨code, -, -, -, rfl, rfl⟩ := insertIssue_eq_ok.mp hi
    rw [Bool.false_and]
    cases hl : before.issueById x with
    | none => simp [reopens, upsertStep, Store.statusOf, hl]
    | some i =>
      refine reopens_of_status_eq ?_
      rw [Store.issueById] at hl
      simp [upsertStep, Store.statusOf, Store.issueById, Table.lookup_append_single, hl]

theorem insertStep_quiet {r : Except Error Event}
    (h : (insertStep a before after o r).Sound sqliteDb) :
    creates x (insertStep a before after o r) = false ∧
      reopens x (insertStep a before after o r) = false :=
  ⟨creates_of_issues_eq (insertStep_issues h), reopens_of_issues_eq (insertStep_issues h)⟩

theorem countStep_quiet {since : Timestamp} {r : Except Error ℤ}
    (h : (countStep before after o since r).Sound sqliteDb) :
    creates x (countStep before after o since r) = false ∧
      reopens x (countStep before after o since r) = false :=
  ⟨creates_of_issues_eq (congrArg Store.issues (countStep_state h)),
    reopens_of_issues_eq (congrArg Store.issues (countStep_state h))⟩

theorem statusStep_after {r : Except Error Issue}
    (h : (statusStep a before after o r).Sound sqliteDb) :
    after = before ∨ after = before.modifyIssue o.issue.id
      (Issue.withStatus sqlite .unresolved a.ambient.wall) := by
  rcases statusStep_cases h with h | ⟨h, -⟩
  · rw [setStatus, updateReturning] at h
    split at h
    · exact .inr (congrArg Prod.snd h).symm
    · exact .inl (congrArg Prod.snd h).symm
  · exact .inl h

theorem creates_statusStep {r : Except Error Issue}
    (h : (statusStep a before after o r).Sound sqliteDb) :
    creates x (statusStep a before after o r) = false := by
  rcases statusStep_after h with h | h
  · exact creates_of_issues_eq (congrArg Store.issues h)
  · have hself (i : Issue) : (i.withStatus sqlite .unresolved a.ambient.wall).id = i.id := rfl
    exact creates_of_modify hself h

theorem reopens_statusStep {r : Except Error Issue}
    (h : (statusStep a before after o r).Sound sqliteDb)
    (hx : reopens x (statusStep a before after o r) = true) : o.issue.id = x := by
  by_contra hne
  have hself (i : Issue) : (i.withStatus sqlite .unresolved a.ambient.wall).id = i.id := rfl
  have hsame : after.statusOf x = before.statusOf x := by
    rcases statusStep_after h with rfl | rfl
    · rfl
    · exact statusOf_modify_ne hself (Ne.symm hne)
  rw [reopens_of_status_eq hsame] at hx
  cases hx

theorem statusStep_ok_id {issue : Issue}
    (h : (statusStep a before after o (.ok issue)).Sound sqliteDb) : issue.id = o.issue.id := by
  rcases statusStep_cases h with h | ⟨-, e, h⟩
  · rw [setStatus, updateReturning] at h
    split at h
    · rename_i row hrow
      have hok := (Backend.rowToIssue_eq_ok.mp (congrArg Prod.fst h)).1
      rw [hok]
      exact (Store.issueById_mem hrow).2
    · cases h
  · cases h

/-- An issue that has just been created or reopened is not counted. -/
theorem quiet_of_count {s s' : Store} {u : IssueUpsert} {draws : ℕ → String} {now : Timestamp}
    (hu : upsertOnce sqlite u draws s = .ok (o, s')) (hc : rateCheck o.issue now ≠ .skip) :
    o.isNew = false ∧ o.isRegression = false := by
  have hmuted : o.issue.status = .muted := by
    by_contra hne
    exact hc (rateCheck_skip_of_not_muted hne)
  rcases upsertOnce_eq_ok.mp hu with ⟨row, -, -, hb⟩ | ⟨-, hi⟩
  · obtain ⟨-, rfl, rfl⟩ := bumpExisting_eq_ok.mp hb
    refine ⟨rfl, ?_⟩
    by_cases hr : row.status = .resolved
    · simp [Issue.bump, hr] at hmuted
    · simp [hr]
  · obtain ⟨code, -, -, -, rfl, rfl⟩ := insertIssue_eq_ok.mp hi
    cases hmuted

theorem not_new_and_regression {s s' : Store} {u : IssueUpsert} {draws : ℕ → String}
    (hu : upsertOnce sqlite u draws s = .ok (o, s')) : ¬ (o.isNew ∧ o.isRegression) := by
  rcases upsertOnce_eq_ok.mp hu with ⟨row, -, -, hb⟩ | ⟨-, hi⟩
  · obtain ⟨-, rfl, -⟩ := bumpExisting_eq_ok.mp hb
    exact fun h => absurd h.1 nofun
  · obtain ⟨code, -, -, -, rfl, -⟩ := insertIssue_eq_ok.mp hi
    exact fun h => absurd h.2 nofun

end Steps

/-- No call has created or reopened an issue. -/
def Quiet (h : List IngestStep) : Prop :=
  ∀ e ∈ h, ∀ x, creates x e = false ∧ reopens x e = false

def Balanced (t : IngestThread) : Prop :=
  ∀ x, t.history.countP (creates x) = (reportsNew x t).toNat ∧
    t.history.countP (reopens x) = (reportsReopened x t).toNat

/-- The attempt did something that it does not report. -/
structure Unreported (t : IngestThread) : Prop where
  silent : ∀ x, reportsNew x t = false ∧ reportsReopened x t = false
  changed : ∃ x, 0 < t.history.countP (creates x) ∨ 0 < t.history.countP (reopens x)

theorem Quiet.countP {h : List IngestStep} (hq : Quiet h) (x : Id) :
    h.countP (creates x) = 0 ∧ h.countP (reopens x) = 0 := by
  constructor <;> refine List.countP_eq_zero.mpr fun e he => ?_
  · simp [(hq e he x).1]
  · simp [(hq e he x).2]

theorem Quiet.not_loses {h : List IngestStep} (hq : Quiet h) : ¬ LosesNotification h := by
  rintro (⟨⟨e, he, x, hx⟩, -⟩ | ⟨e, he, -, -, x, hx⟩)
  · rcases hx with hx | hx
    · exact absurd ((hq e he x).1.symm.trans hx) Bool.noConfusion
    · exact absurd ((hq e he x).2.symm.trans hx) Bool.noConfusion
  · exact absurd ((hq e he x).2.symm.trans hx) Bool.noConfusion

theorem Quiet.balanced {h : List IngestStep} (hq : Quiet h)
    {q : Prog sqliteCalls Error IngestOutcome}
    (hs : ∀ x, reportsNew x ⟨q, h⟩ = false ∧ reportsReopened x ⟨q, h⟩ = false) :
    Balanced ⟨q, h⟩ ∧ ¬ LosesNotification h := by
  refine ⟨fun x => ?_, hq.not_loses⟩
  rw [(hs x).1, (hs x).2]
  exact hq.countP x

section Attempts

variable {G : Grouping} {a : Attempt} {o : UpsertOutcome} {event : Event} {x : Id}

/-- The steps of a history found consistent tables and were answered by the database. -/
def SoundSteps (h : List IngestStep) : Prop := ∀ e ∈ h, e.before.Consistent ∧ e.Sound sqliteDb

theorem SoundSteps.append {h h' : List IngestStep} (hs : SoundSteps (h ++ h')) :
    SoundSteps h ∧ SoundSteps h' :=
  ⟨fun e he => hs e (List.mem_append_left _ he), fun e he => hs e (List.mem_append_right _ he)⟩

theorem SoundSteps.upsert {b b' : Store} {r : Except Error UpsertOutcome} {h : List IngestStep}
    (hs : SoundSteps (upsertStep G a b b' r :: h)) :
    b.Consistent ∧ (upsertStep G a b b' r).Sound sqliteDb :=
  hs _ List.mem_cons_self

/-- What is counted after its insert is an issue that was muted before its upsert. -/
theorem Inserted.not_notified {h : List IngestStep} (hi : Inserted G a o event h)
    (hs : SoundSteps h) (hc : rateCheck o.issue a.seenAt ≠ .skip) :
    o.isNew = false ∧ o.isRegression = false := by
  obtain ⟨b₁, a₁, b₂, a₂⟩ := hi
  exact quiet_of_count (upsertStep_ok hs.upsert.2) hc

theorem Inserted.quiet {h : List IngestStep} (hi : Inserted G a o event h) (hs : SoundSteps h)
    (hc : rateCheck o.issue a.seenAt ≠ .skip) : Quiet h := by
  obtain ⟨hnew, hreg⟩ := hi.not_notified hs hc
  obtain ⟨b₁, a₁, b₂, a₂⟩ := hi
  obtain ⟨hb₁, hup⟩ := hs.upsert
  obtain ⟨-, hins⟩ := hs _ (List.mem_cons_of_mem _ List.mem_cons_self)
  intro e he x
  simp only [List.mem_cons, List.not_mem_nil, or_false] at he
  rcases he with rfl | rfl
  · rw [creates_upsertStep hb₁ hup, reopens_upsertStep hb₁ hup, hnew, hreg]
    exact ⟨rfl, rfl⟩
  · exact insertStep_quiet hins

theorem Inserted.no_failed_insert {h : List IngestStep} (hi : Inserted G a o event h) :
    (∀ e ∈ h, ¬ (isInsert e ∧ failed e)) ∧ ∀ e ∈ h, ¬ isStatusWrite e := by
  obtain ⟨b₁, a₁, b₂, a₂⟩ := hi
  constructor <;> intro e he <;> simp only [List.mem_cons, List.not_mem_nil, or_false] at he <;>
    rcases he with rfl | rfl <;> simp [isInsert, isStatusWrite, failed, upsertStep, insertStep]

theorem quiet_append {h h' : List IngestStep} (hq : Quiet h) (hq' : Quiet h') : Quiet (h ++ h') := by
  intro e he
  rcases List.mem_append.mp he with he | he
  · exact hq e he
  · exact hq' e he

theorem Inserted.quiet_counted {h : List IngestStep} (hi : Inserted G a o event h)
    {b b' : Store} {since : Timestamp} {r : Except Error ℤ}
    (hs : SoundSteps (h ++ [countStep b b' o since r]))
    (hc : rateCheck o.issue a.seenAt ≠ .skip) : Quiet (h ++ [countStep b b' o since r]) := by
  refine quiet_append (hi.quiet hs.append.1 hc) fun e he x => ?_
  obtain rfl := List.mem_singleton.mp he
  exact countStep_quiet (hs.append.2 _ List.mem_cons_self).2

/-- Neither the insert nor the status write of an attempt that resurfaced an issue failed. -/
theorem Inserted.resurfaced_not_loses {h : List IngestStep} (hi : Inserted G a o event h)
    {b₃ a₃ b₄ a₄ : Store} {since : Timestamp} {n : ℤ} {issue : Issue} :
    ¬ LosesNotification
      (h ++ [countStep b₃ a₃ o since (.ok n)] ++ [statusStep a b₄ a₄ o (.ok issue)]) := by
  have hsteps : ∀ e ∈ h ++ [countStep b₃ a₃ o since (.ok n)] ++ [statusStep a b₄ a₄ o (.ok issue)],
      ¬ (isInsert e ∧ failed e) ∧ ¬ (isStatusWrite e ∧ failed e) := by
    intro e he
    simp only [List.append_assoc, List.mem_append, List.mem_cons, List.not_mem_nil, or_false] at he
    rcases he with he | rfl | rfl
    · exact ⟨hi.no_failed_insert.1 e he, fun hw => hi.no_failed_insert.2 e he hw.1⟩
    · simp [isInsert, isStatusWrite, countStep]
    · simp [failed, statusStep]
  rintro (⟨-, e, he, hfailed⟩ | ⟨e, he, hw, hf, -⟩)
  · exact (hsteps e he).1 hfailed
  · exact (hsteps e he).2 ⟨hw, hf⟩

/-- An attempt whose insert failed keeps silent about what its upsert did. -/
theorem insertFailed_cases {b₁ a₁ b₂ a₂ : Store} {e : Error}
    (hs : SoundSteps [upsertStep G a b₁ a₁ (.ok o), insertStep a b₂ a₂ o (.error e)]) :
    Quiet [upsertStep G a b₁ a₁ (.ok o), insertStep a b₂ a₂ o (.error e)] ∨
      Unreported ⟨.fail e, [upsertStep G a b₁ a₁ (.ok o), insertStep a b₂ a₂ o (.error e)]⟩ ∧
        LosesNotification [upsertStep G a b₁ a₁ (.ok o), insertStep a b₂ a₂ o (.error e)] := by
  obtain ⟨hb₁, hup⟩ := hs.upsert
  obtain ⟨-, hins⟩ := hs _ (List.mem_cons_of_mem _ List.mem_cons_self)
  have hcreates := creates_upsertStep (x := o.issue.id) hb₁ hup
  have hreopens := reopens_upsertStep (x := o.issue.id) hb₁ hup
  by_cases hkind : o.isNew = false ∧ o.isRegression = false
  · left
    intro e he x
    simp only [List.mem_cons, List.not_mem_nil, or_false] at he
    rcases he with rfl | rfl
    · rw [creates_upsertStep hb₁ hup, reopens_upsertStep hb₁ hup, hkind.1, hkind.2]
      exact ⟨rfl, rfl⟩
    · exact insertStep_quiet hins
  · right
    have hchanged : creates o.issue.id (upsertStep G a b₁ a₁ (.ok o)) = true ∨
        reopens o.issue.id (upsertStep G a b₁ a₁ (.ok o)) = true := by
      rw [hcreates, hreopens]
      cases hnew : o.isNew <;> cases hreg : o.isRegression <;> simp_all
    refine ⟨⟨fun _ => ⟨rfl, rfl⟩, o.issue.id, ?_⟩, .inl ⟨⟨_, List.mem_cons_self, _, hchanged⟩,
      _, List.mem_cons_of_mem _ List.mem_cons_self, rfl, rfl⟩⟩
    simp only [List.countP_pos_iff]
    exact hchanged.imp (⟨_, List.mem_cons_self, ·⟩) (⟨_, List.mem_cons_self, ·⟩)

theorem inserted_balanced {h : List IngestStep} (hi : Inserted G a o event h)
    (hs : SoundSteps h) (fingerprint : String) :
    Balanced ⟨.ret (ingestOutcome o event fingerprint none), h⟩ := by
  obtain ⟨b₁, a₁, b₂, a₂⟩ := hi
  obtain ⟨hb₁, hup⟩ := hs.upsert
  obtain ⟨-, hins⟩ := hs _ (List.mem_cons_of_mem _ List.mem_cons_self)
  have hkind := not_new_and_regression (upsertStep_ok hup)
  intro x
  have hnowrite : ([upsertStep G a b₁ a₁ (.ok o), insertStep a b₂ a₂ o (.ok event)] :
      List IngestStep).any isStatusWrite = false := rfl
  simp only [List.countP_cons, List.countP_nil, creates_upsertStep hb₁ hup,
    reopens_upsertStep hb₁ hup, (insertStep_quiet hins).1, (insertStep_quiet hins).2, reportsNew,
    reportsReopened, hnowrite, ingestOutcome, notifyKind]
  by_cases hreg : o.isRegression = true
  · have hnew : o.isNew = false := Bool.eq_false_iff.mpr fun h => hkind ⟨h, hreg⟩
    by_cases hx : o.issue.id = x <;> simp [hreg, hnew, hx]
  · by_cases hnew : o.isNew = true <;> by_cases hx : o.issue.id = x <;> simp [hreg, hnew, hx]

/-- An attempt that resurfaced a muted issue reports a reopening iff its status write was one. -/
theorem resurfaced_balanced {h : List IngestStep} (hq : Quiet h) {b₄ a₄ : Store} {issue : Issue}
    (hs : (statusStep a b₄ a₄ o (.ok issue)).Sound sqliteDb) (fingerprint : String) :
    Balanced ⟨.ret (ingestOutcome o event fingerprint (some issue)),
      h ++ [statusStep a b₄ a₄ o (.ok issue)]⟩ := by
  intro x
  have hcreates := creates_statusStep (x := x) hs
  have hany : h.any (reopens x) = false := by
    simpa using fun e he => (hq e he x).2
  have hwrite : isStatusWrite (statusStep a b₄ a₄ o (.ok issue)) = true := rfl
  have hid : reopens x (statusStep a b₄ a₄ o (.ok issue)) = true → issue.id = x :=
    fun hx => (statusStep_ok_id hs).trans (reopens_statusStep hs hx)
  simp only [List.countP_append, (hq.countP x).1, (hq.countP x).2, List.countP_singleton, hcreates,
    reportsNew, reportsReopened, ingestOutcome, List.any_append, hany, List.any_cons, List.any_nil,
    hwrite]
  cases hr : reopens x (statusStep a b₄ a₄ o (.ok issue)) <;> simp_all

/-- An attempt whose status write failed keeps silent about a reopening by it. -/
theorem writeFailed_cases {h : List IngestStep} (hq : Quiet h) {b₄ a₄ : Store} {e : Error}
    (hs : (statusStep a b₄ a₄ o (.error e)).Sound sqliteDb) :
    Balanced ⟨.fail e, h ++ [statusStep a b₄ a₄ o (.error e)]⟩ ∧
        ¬ LosesNotification (h ++ [statusStep a b₄ a₄ o (.error e)]) ∨
      Unreported ⟨.fail e, h ++ [statusStep a b₄ a₄ o (.error e)]⟩ ∧
        LosesNotification (h ++ [statusStep a b₄ a₄ o (.error e)]) := by
  by_cases hr : ∃ x, reopens x (statusStep a b₄ a₄ o (.error e)) = true
  · obtain ⟨x, hx⟩ := hr
    have hmem : statusStep a b₄ a₄ o (.error e) ∈ h ++ [statusStep a b₄ a₄ o (.error e)] := by simp
    refine .inr ⟨⟨fun _ => ⟨rfl, rfl⟩, x, .inr ?_⟩, .inr ⟨_, hmem, rfl, rfl, x, hx⟩⟩
    exact List.countP_pos_iff.mpr ⟨_, hmem, hx⟩
  · have hlast : Quiet [statusStep a b₄ a₄ o (.error e)] := by
      intro e' he x
      obtain rfl := List.mem_singleton.mp he
      exact ⟨creates_statusStep hs, Bool.eq_false_iff.mpr fun hx => hr ⟨x, hx⟩⟩
    have hall := quiet_append hq hlast
    exact .inl (hall.balanced fun _ => ⟨rfl, rfl⟩)

/-- An attempt that is not under way is balanced and loses nothing, or keeps silent and loses. -/
theorem phase_balanced_or_unreported {h : List IngestStep}
    {q : Prog sqliteCalls Error IngestOutcome} (hp : Phase G a h q) (hs : SoundSteps h)
    (hset : (⟨q, h⟩ : IngestThread).Settled) :
    Balanced ⟨q, h⟩ ∧ ¬ LosesNotification h ∨ Unreported ⟨q, h⟩ ∧ LosesNotification h := by
  cases hp with
  | unstarted =>
    have hq : Quiet [] := by simp [Quiet]
    exact .inl (hq.balanced fun _ => ⟨rfl, rfl⟩)
  | upsertFailed b₁ a₁ e =>
    have hq : Quiet [upsertStep G a b₁ a₁ (.error e)] := by
      intro e' he x
      obtain rfl := List.mem_singleton.mp he
      have hafter := congrArg Store.issues (upsertStep_error hs.upsert.2)
      exact ⟨creates_of_issues_eq hafter, reopens_of_issues_eq hafter⟩
    exact .inl (hq.balanced fun _ => ⟨rfl, rfl⟩)
  | upserted b₁ a₁ o =>
    have hended : false = true := hset.resolve_left nofun
    cases hended
  | insertFailed b₁ a₁ b₂ a₂ o e =>
    rcases insertFailed_cases hs with hq | hlost
    · exact .inl (hq.balanced fun _ => ⟨rfl, rfl⟩)
    · exact .inr hlost
  | @inserted h o event hi =>
    unfold afterInsert at hset ⊢
    cases hc : rateCheck o.issue a.seenAt with
    | skip =>
      refine .inl ⟨inserted_balanced hi hs _, ?_⟩
      obtain ⟨hinsert, hwrite⟩ := hi.no_failed_insert
      rintro (⟨-, e, he, hfailed⟩ | ⟨e, he, hw, -⟩)
      · exact hinsert e he hfailed
      · exact hwrite e he hw
    | overflow =>
      have hq := hi.quiet hs (by rw [hc]; nofun)
      exact .inl (hq.balanced fun _ => ⟨rfl, rfl⟩)
    | count threshold since =>
      rw [hc] at hset
      obtain ⟨b₁, a₁, b₂, a₂⟩ := hi
      have hended : false = true := hset.resolve_left nofun
      cases hended
  | countFailed hi hc b₃ a₃ e =>
    have hq := hi.quiet_counted hs (by rw [hc]; nofun)
    exact .inl (hq.balanced fun _ => ⟨rfl, rfl⟩)
  | below hi hc b₃ a₃ hn =>
    have hq := hi.quiet_counted hs (by rw [hc]; nofun)
    obtain ⟨hnew, hreg⟩ := hi.not_notified hs.append.1 (by rw [hc]; nofun)
    refine .inl (hq.balanced fun x => ?_)
    simp [reportsNew, reportsReopened, ingestOutcome, notifyKind, hnew, hreg]
  | exceeded hi hc b₃ a₃ hn =>
    have hended : false = true := hset.resolve_left (by simp)
    cases hended
  | @writeFailed h o event hi threshold since hc b₃ a₃ n hn b₄ a₄ e =>
    rw [List.append_cons] at hs ⊢
    have hq := hi.quiet_counted hs.append.1 (by rw [hc]; nofun)
    exact writeFailed_cases hq (hs.append.2 _ List.mem_cons_self).2
  | @resurfaced h o event hi threshold since hc b₃ a₃ n hn b₄ a₄ issue =>
    rw [List.append_cons] at hs ⊢
    have hq := hi.quiet_counted hs.append.1 (by rw [hc]; nofun)
    exact .inl ⟨resurfaced_balanced hq (hs.append.2 _ List.mem_cons_self).2 _,
      hi.resurfaced_not_loses⟩

end Attempts

theorem countP_le_sum {ι : Type} {ts : List ι} {count : ι → ℕ} {p : ι → Bool}
    (hle : ∀ t ∈ ts, (p t).toNat ≤ count t) : ts.countP p ≤ (ts.map count).sum := by
  induction ts with
  | nil => simp
  | cons t ts ih =>
    have ht := hle t List.mem_cons_self
    have htail := ih fun t' ht' => hle t' (List.mem_cons_of_mem _ ht')
    simp only [List.countP_cons, List.map_cons, List.sum_cons]
    cases hp : p t <;> simp_all <;> omega

theorem sum_eq_countP_iff {ι : Type} {ts : List ι} {count : ι → ℕ} {p : ι → Bool}
    (hle : ∀ t ∈ ts, (p t).toNat ≤ count t) :
    (ts.map count).sum = ts.countP p ↔ ∀ t ∈ ts, count t = (p t).toNat := by
  induction ts with
  | nil => simp
  | cons t ts ih =>
    have ht := hle t List.mem_cons_self
    have htail : ∀ t' ∈ ts, (p t').toNat ≤ count t' :=
      fun t' ht' => hle t' (List.mem_cons_of_mem _ ht')
    have hsum := countP_le_sum htail
    have hhead : (if p t = true then 1 else 0) = (p t).toNat := by cases p t <;> rfl
    rw [List.forall_mem_cons, ← ih htail, List.countP_cons, List.map_cons, List.sum_cons, hhead]
    omega

/-- Ingests that run among each other and among other calls; a re-sent event is one more attempt. -/
def ingestPool (G : Grouping) (attempts : List Attempt) (turns : List (Turn sqliteCalls Error))
    (s : Store) : Pool sqliteCalls Error Store IngestOutcome :=
  (Pool.start (attempts.map (Attempt.prog G)) s).run sqliteDb turns

theorem ingestPool_sound (G : Grouping) (attempts : List Attempt)
    (turns : List (Turn sqliteCalls Error)) {s : Store} (hs : s.Consistent) {t : IngestThread}
    (ht : t ∈ (ingestPool G attempts turns s).threads) :
    ∃ a ∈ attempts, Phase G a t.history t.rest ∧ SoundSteps t.history := by
  have hsound := (Pool.run_sound (m := sqliteDb) (I := Store.Consistent) (fun c _ hs => Store.Consistent.sqliteStep hs c) hs
    (Pool.start_sound (attempts.map (Attempt.prog G)) s) turns).2
  obtain ⟨p, hp, hR⟩ := exists_of_forall₂_mem hsound ht
  obtain ⟨a, ha, rfl⟩ := List.mem_map.mp hp
  exact ⟨a, ha, phase_of_path hR.path, hR.calls⟩

theorem exact_iff_of_settled {threads : List IngestThread}
    (h : ∀ t ∈ threads, Balanced t ∧ ¬ LosesNotification t.history ∨
      Unreported t ∧ LosesNotification t.history) :
    NotificationsExact threads ↔ ∀ t ∈ threads, ¬ LosesNotification t.history := by
  have hle (x : Id) : ∀ t ∈ threads, (reportsNew x t).toNat ≤ t.history.countP (creates x) ∧
      (reportsReopened x t).toNat ≤ t.history.countP (reopens x) := by
    intro t ht
    rcases h t ht with ⟨hb, -⟩ | ⟨hu, -⟩
    · exact ⟨(hb x).1.ge, (hb x).2.ge⟩
    · simp [hu.silent x]
  have hexact : NotificationsExact threads ↔ ∀ t ∈ threads, Balanced t := by
    simp only [NotificationsExact, List.countP_flatMap]
    constructor
    · intro hx t ht x
      exact ⟨(sum_eq_countP_iff fun t ht => (hle x t ht).1).mp (hx x).1 t ht,
        (sum_eq_countP_iff fun t ht => (hle x t ht).2).mp (hx x).2 t ht⟩
    · intro hb x
      exact ⟨(sum_eq_countP_iff fun t ht => (hle x t ht).1).mpr fun t ht => (hb t ht x).1,
        (sum_eq_countP_iff fun t ht => (hle x t ht).2).mpr fun t ht => (hb t ht x).2⟩
  rw [hexact]
  refine forall₂_congr fun t ht => ?_
  rcases h t ht with ⟨hb, hl⟩ | ⟨hu, hl⟩
  · exact ⟨fun _ => hl, fun _ => hb⟩
  · refine ⟨fun hb => ?_, fun hn => absurd hl hn⟩
    obtain ⟨x, hx⟩ := hu.changed
    have hbx := hb x
    rw [(hu.silent x).1, (hu.silent x).2] at hbx
    rcases hx with hx | hx
    · exact absurd hbx.1 hx.ne'
    · exact absurd hbx.2 hx.ne'

/-- In a settled run every report is made, once, iff no attempt fails after what it would report. -/
theorem notifications_exact_iff (G : Grouping) (attempts : List Attempt)
    (turns : List (Turn sqliteCalls Error)) (s : Store) (hs : SqliteReachable s)
    (hset : ∀ t ∈ (ingestPool G attempts turns s).threads, t.Settled) :
    NotificationsExact (ingestPool G attempts turns s).threads ↔
      ∀ t ∈ (ingestPool G attempts turns s).threads, ¬ LosesNotification t.history := by
  refine exact_iff_of_settled fun t ht => ?_
  obtain ⟨a, -, hphase, hsteps⟩ := ingestPool_sound G attempts turns hs.consistent ht
  exact phase_balanced_or_unreported hphase hsteps (hset t ht)

/-- The event insert of the first attempt is busy; the event is sent again. -/
def resentTurns : List (Turn sqliteCalls Error) := [
  .thread 0 none,
  .thread 0 (some (.dbBusy "insert event" (.db (.sqlite (some 5) "database is locked")))),
  .thread 1 none,
  .thread 1 none]

def firstAttempt : Attempt := ⟨firstEvent, .atSecond 1, quietAmbient⟩

theorem notifications_exact_iff_resent :
    NotificationsExact
        (ingestPool oneGroup [firstAttempt, firstAttempt] resentTurns projectOnly).threads ↔
      ∀ t ∈ (ingestPool oneGroup [firstAttempt, firstAttempt] resentTurns projectOnly).threads,
        ¬ LosesNotification t.history :=
  notifications_exact_iff _ _ _ _ projectOnly_reachable (by decide)

/-- The issue that the first attempt created is reported by neither attempt. -/
theorem resent_not_exact :
    (ingestPool oneGroup [firstAttempt, firstAttempt] resentTurns projectOnly).threads.map
        (fun t => (t.history.countP (creates 1), reportsNew 1 t)) = [(1, false), (0, false)] ∧
      ¬ NotificationsExact
        (ingestPool oneGroup [firstAttempt, firstAttempt] resentTurns projectOnly).threads := by
  refine ⟨by decide, fun h => ?_⟩
  have hcreated : ((ingestPool oneGroup [firstAttempt, firstAttempt] resentTurns
      projectOnly).threads.flatMap Thread.history).countP (creates 1) = 1 := by decide
  have hreported : (ingestPool oneGroup [firstAttempt, firstAttempt] resentTurns
      projectOnly).threads.countP (reportsNew 1) = 0 := by decide
  have hx := (h 1).1
  rw [hcreated, hreported] at hx
  cases hx

end Soika
