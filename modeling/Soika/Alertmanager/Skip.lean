import Soika.Alertmanager.Orphans
import Soika.Alertmanager.Rendering

/-! # Skipping a refresh

A refresh is skipped because of the instant in the row at which its alert was last
sent. That instant is right as long as no operation ends between a resolution that was
delivered and the write of the row that follows it: then the last message delivered to
the identity of a row that was sent is the alert of the row.
-/

namespace Soika

open Interaction Table

/-- The last effect resolved an alert whose row still says that it was sent. -/
def Stale (s : AlertState) : Prop :=
  match s.history with
  | .sent endpoint (.resolved alert) true :: _ =>
    ∃ row ∈ s.rows, row.identity = (endpoint, alert.labels) ∧ row.lastSentAt.isSome
  | _ => False

instance : DecidablePred Stale := fun s => by
  unfold Stale
  split <;> infer_instance

/-- Rows that were sent hold what was delivered last, but for the row of one issue. -/
structure FreshBut (idText : Id → String) (but : Id → Prop) (s : AlertState) : Prop where
  unique : UniqueOn ActiveAlert.issueId s.rows
  named : ∀ row ∈ s.rows, row.Named idText
  fresh : ∀ row ∈ s.rows, ¬ but row.issueId → row.lastSentAt.isSome →
    lastDelivered row.identity s.history = some (.firing row.alert)

/-- Rows that were sent hold what was delivered last. -/
abbrev Fresh (idText : Id → String) (s : AlertState) : Prop := FreshBut idText (fun _ => False) s

section

variable {uuid : UuidText} {s : AlertState} {issueId : Id}

theorem lastDelivered_sent {id : Identity} {endpoint : String} {message : Message}
    {delivered : Bool} {history : List Effect}
    (h : delivered → (endpoint, message.alert.labels) ≠ id) :
    lastDelivered id (.sent endpoint message delivered :: history) = lastDelivered id history := by
  unfold lastDelivered
  rw [messagesTo]
  split_ifs with hid
  · cases delivered with
    | false => rfl
    | true => exact absurd hid (h rfl)
  · rfl

theorem lastDelivered_self {endpoint : String} {message : Message} {history : List Effect} :
    lastDelivered (endpoint, message.alert.labels) (.sent endpoint message true :: history) =
      some message := by
  simp [lastDelivered, messagesTo]

theorem identity_ne {row : ActiveAlert} (hrow : row.Named uuid.text) {endpoint : String}
    {labels : OrdMap String String} (hlabels : labels.get "issue_id" = some (uuid.text issueId))
    (hne : row.issueId ≠ issueId) : (endpoint, labels) ≠ row.identity := by
  intro he
  obtain rfl : labels = row.alert.labels := congrArg Prod.snd he
  rw [hrow] at hlabels
  exact hne (uuid.injective (Option.some.inj hlabels))

namespace FreshBut

theorem empty : Fresh uuid.text .empty :=
  ⟨.nil, fun _ h => absurd h List.not_mem_nil, fun _ h => absurd h List.not_mem_nil⟩

theorem but (h : Fresh uuid.text s) (p : Id → Prop) : FreshBut uuid.text p s :=
  ⟨h.unique, h.named, fun row hrow _ => h.fresh row hrow not_false⟩

/-- A message that is delivered to no other row that was sent. -/
theorem sent {p : Id → Prop} (h : FreshBut uuid.text p s) {endpoint : String} {message : Message}
    {delivered : Bool}
    (hother : delivered → ∀ row ∈ s.rows, ¬ p row.issueId → row.lastSentAt.isSome →
      (endpoint, message.alert.labels) ≠ row.identity) :
    FreshBut uuid.text p (s.sent endpoint message delivered) := by
  refine ⟨h.unique, h.named, fun row hrow hp hsome => ?_⟩
  rw [AlertState.sent, lastDelivered_sent fun hd => hother hd row hrow hp hsome]
  exact h.fresh row hrow hp hsome

/-- A row is written with what was delivered last, or as not sent yet. -/
theorem save (h : FreshBut uuid.text (· = issueId) s) {a : ActiveAlert} (hid : a.issueId = issueId)
    (ha : a.Named uuid.text)
    (hsent : a.lastSentAt.isSome → lastDelivered a.identity s.history = some (.firing a.alert)) :
    Fresh uuid.text (s.save a) := by
  refine ⟨AlertState.unique_save h.unique, fun row hrow => ?_, fun row hrow _ hsome => ?_⟩
  · rcases AlertState.mem_save.mp hrow with rfl | ⟨hrow, -⟩
    · exact ha
    · exact h.named row hrow
  · rcases AlertState.mem_save.mp hrow with rfl | ⟨hrow, hne⟩
    · exact hsent hsome
    · exact h.fresh row hrow (hid ▸ hne) hsome

theorem remove (h : FreshBut uuid.text (· = issueId) s) : Fresh uuid.text (s.remove issueId) := by
  refine ⟨h.unique.remove, fun row hrow => h.named row (mem_remove.mp hrow).1,
    fun row hrow _ hsome => ?_⟩
  obtain ⟨hrow, hne⟩ := mem_remove.mp hrow
  exact h.fresh row hrow hne hsome

/-- What an operation leaves: a fresh table, unless it stopped right after a resolution. -/
abbrev Leaving (uuid : UuidText) (s : AlertState) : Prop := ¬ Stale s → Fresh uuid.text s

/-- After a resolution of the row of an issue, the other rows are fresh. -/
theorem leaves_resolve {f : Unit → AlertProg Unit} (h : Fresh uuid.text s) {old : ActiveAlert}
    (hold : old ∈ s.rows)
    (hf : ∀ s', Leaving uuid s' → FreshBut uuid.text (· = old.issueId) s' → s'.rows = s.rows →
      (f ()).Leaves alertStore (Leaving uuid) s') :
    ((resolve old).bind f).Leaves alertStore (Leaving uuid) s := by
  rw [resolve_bind]
  have hothers : ∀ row ∈ s.rows, row.issueId ≠ old.issueId →
      (old.endpoint, old.alert.labels) ≠ row.identity := fun row hrow hne =>
    identity_ne (h.named row hrow) (h.named old hold) hne
  refine leaves_read (by trivial) (fun _ => h) fun now => leaves_send (fun _ => h) ?_ ?_
  · exact fun _ => h.sent nofun
  refine hf _ (fun hstale => ?_) ?_ rfl
  · refine h.sent fun _ row hrow _ hsome he => hstale ⟨row, hrow, he.symm, hsome⟩
  · exact (h.but _).sent fun _ row hrow hne _ => hothers row hrow hne

theorem leaves_deliver (hs : Leaving uuid s) {pending : ActiveAlert}
    (h : FreshBut uuid.text (· = pending.issueId) s) (hnamed : pending.Named uuid.text)
    (hnone : pending.lastSentAt = none) :
    (deliver pending).Leaves alertStore (Leaving uuid) s := by
  have hsaved := h.save rfl hnamed fun hsome => by simp [hnone] at hsome
  have hother : ∀ row ∈ (s.save pending).rows, row.lastSentAt.isSome →
      (pending.endpoint, pending.alert.labels) ≠ row.identity := by
    intro row hrow hsome
    rcases AlertState.mem_save.mp hrow with rfl | ⟨-, hne⟩
    · simp [hnone] at hsome
    · exact identity_ne (hsaved.named row hrow) hnamed hne
  have hsent (delivered : Bool) : Fresh uuid.text
      ((s.save pending).sent pending.endpoint (.firing pending.alert) delivered) :=
    hsaved.sent fun _ row hrow _ => hother row hrow
  refine leaves_save hs (leaves_send (fun _ => hsaved) (fun _ => hsent false) ?_)
  refine leaves_read (by trivial) (fun _ => hsent true) fun now => ?_
  refine leaves_last (leaves_save (fun _ => hsent true) fun _ => ?_)
  exact ((hsent true).but _).save rfl hnamed fun _ => lastDelivered_self

theorem leaves_prog (h : Fresh uuid.text s) (parseUrl : String → Option Url) (op : AlertOperation) :
    (op.prog parseUrl uuid.text).Leaves alertStore (Leaving uuid) s := by
  refine op.leaves (fun _ => h) ?_ ?_ ?_
  · intro pending hnamed hnone
    cases hrow : s.rowOf pending.issueId with
    | none => exact leaves_deliver (fun _ => h) (h.but _) hnamed hnone
    | some old =>
      obtain ⟨hold, hid⟩ := lookup_eq_some_mem hrow
      refine leaves_resolve h hold fun s' hs' h' _ => ?_
      rw [hid] at h'
      exact leaves_deliver hs' h' hnamed hnone
  · intro saved pending hrow hnamed hnone hissue hid
    exact leaves_deliver (fun _ => h) (h.but _) hnamed hnone
  · intro saved hrow
    obtain ⟨hold, -⟩ := lookup_eq_some_mem hrow
    refine leaves_resolve h hold fun s' hs' h' _ => ?_
    exact leaves_last (leaves_remove hs' fun _ => h'.remove)

end FreshBut

end

/-- Where a refresh would be skipped, the message that was delivered last to the identity of the
row is an alert that fires until the row says. -/
def SkipSound (s : AlertState) : Prop :=
  ∀ (issueId : Id) (row : ActiveAlert) (endpoint : String) (labels : OrdMap String String)
    (seconds : ℤ) (now now' : Timestamp), s.rowOf issueId = some row →
    nothingDue row endpoint labels seconds now now' = some true →
      ∃ alert, lastDelivered row.identity s.history = some (.firing alert) ∧
        alert.endsAt = row.alert.endsAt

theorem lastSentAt_of_nothingDue {saved : ActiveAlert} {endpoint : String}
    {labels : OrdMap String String} {seconds : ℤ} {now now' : Timestamp}
    (h : nothingDue saved endpoint labels seconds now now' = some true) :
    saved.lastSentAt.isSome := by
  cases hsent : saved.lastSentAt with
  | none => simp [nothingDue, hsent] at h
  | some sent => rfl

/-- The settings of a run: no operation ends on a stale row. -/
def EndsUnstale (parseUrl : String → Option Url) (idText : Id → String) (moves : List AlertMove) :
    Prop :=
  Serial.EndsIn alertStore (AlertOperation.prog parseUrl idText) (fun s => ¬ Stale s) moves
    ⟨.empty, none⟩

instance (parseUrl : String → Option Url) (idText : Id → String) (moves : List AlertMove) :
    Decidable (EndsUnstale parseUrl idText moves) :=
  inferInstanceAs (Decidable (Serial.EndsIn ..))

/-- In every run in which no operation ends between a delivered resolution and the write of its
row, a refresh is skipped only for an alert that fires; reconciliation decides under the lock,
in the state in which it took it. -/
theorem skip_sound (parseUrl : String → Option Url) (uuid : UuidText) (moves : List AlertMove)
    (hends : EndsUnstale parseUrl uuid.text moves)
    (hfree : (afterAlerts parseUrl uuid.text moves).current = none) :
    SkipSound (afterAlerts parseUrl uuid.text moves).state := by
  have hsound : Serial.Sound alertStore (fun s => ¬ Stale s) (Fresh uuid.text)
      (afterAlerts parseUrl uuid.text moves) :=
    Serial.Sound.run (fun op s h => h.leaves_prog parseUrl op) FreshBut.empty hends
  have hfresh := hsound.cut fun hsome => by simp [hfree] at hsome
  intro issueId row endpoint labels seconds now now' hrow hskip
  obtain ⟨hmem, -⟩ := lookup_eq_some_mem hrow
  exact ⟨_, hfresh.fresh row hmem not_false (lastSentAt_of_nothingDue hskip), rfl⟩

def exampleSettings : AlertSettings := ⟨true, none, "https://soika", none⟩

/-- One project and one issue, whose alert is refreshed every minute. -/
def exampleWorld (status : IssueStatus) : World where
  config := ⟨channelNamed "SoikaIssue"⟩
  orgName := "Soika"
  names := AlertmanagerNames.default
  projectLabels := .empty
  defaultSeverity := some .critical
  globalInterval := ⟨60, by decide⟩
  now := .atSecond 100
  issues := [{ exampleIssue with status }]
  projects := [exampleProject]

def answered (n : ℕ) (w : World) : List AlertMove := List.replicate n (.turn (w, .none))

def notifyRun : List AlertMove :=
  .start (.notify exampleSettings exampleProject exampleIssue "new_issue") ::
    answered 14 (exampleWorld .unresolved)

/-- Then the issue is resolved and so is its alert, but the row cannot be removed. -/
def lostRemoval : List AlertMove :=
  notifyRun ++
    .start (.refresh exampleSettings (channelNamed "SoikaIssue") "Soika" 3) ::
      answered 5 (exampleWorld .resolved) ++
    [.turn (exampleWorld .resolved, .lost (.db (.other "disk I/O error")))]

/-- The row of the issue, as it was written before the alert was resolved. -/
def staleRow : ActiveAlert where
  lastSentAt := some (.atSecond 100)
  issueId := 3
  endpoint := "http://alertmanager:9093/api/v2/alerts"
  trigger := "new_issue"
  alert :=
    { labels := .ofList
        [("alertname", "SoikaIssueCritical"), ("issue_id", exampleIdText 3),
          ("project_id", exampleIdText 1), ("severity", "critical")]
      annotations := .empty
      startsAt := .atSecond 100
      endsAt := .atSecond 400
      generatorUrl := "https://soika/projects/web/issues/iss001" }

theorem skip_sound_notifyRun :
    EndsUnstale exampleUrl exampleUuid.text notifyRun ∧
      (afterAlerts exampleUrl exampleUuid.text notifyRun).current = none ∧
      SkipSound (afterAlerts exampleUrl exampleUuid.text notifyRun).state := by
  have hends : EndsUnstale exampleUrl exampleUuid.text notifyRun := by decide
  have hfree : (afterAlerts exampleUrl exampleUuid.text notifyRun).current = none :=
    Option.isNone_iff_eq_none.mp (by decide)
  exact ⟨hends, hfree, skip_sound exampleUrl exampleUuid notifyRun hends hfree⟩

/-- When the issue is unresolved again within the minute, its alert is taken for firing. -/
theorem skip_not_sound :
    (afterAlerts exampleUrl exampleUuid.text lostRemoval).current.isNone ∧
      ¬ SkipSound (afterAlerts exampleUrl exampleUuid.text lostRemoval).state := by
  refine ⟨by decide, fun h => ?_⟩
  obtain ⟨alert, hlast, -⟩ := h 3 staleRow staleRow.endpoint staleRow.alert.labels 60
    (.atSecond 130) (.atSecond 130) (by decide) (by decide)
  have hresolved : (lastDelivered staleRow.identity
      (afterAlerts exampleUrl exampleUuid.text lostRemoval).state.history).any Message.isFiring =
        false := by decide
  rw [hlast] at hresolved
  cases hresolved

end Soika
