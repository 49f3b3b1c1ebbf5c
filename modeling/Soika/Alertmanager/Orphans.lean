import Soika.Alertmanager.Operations

/-! # No orphaned alert

An identity may be firing at Alertmanager from the first attempt to send it until a
message that resolves it is delivered. In every run all these identities are stored in
the rows of their issues: an identity is saved before it is sent, and a row is replaced
or removed only after what it holds has been resolved.
-/

namespace Soika

open Interaction Table

/-- The messages to an identity, newest first, each with whether it was delivered. -/
def messagesTo (id : Identity) : List Effect → List (Message × Bool)
  | [] => []
  | .sent endpoint message delivered :: history =>
    if (endpoint, message.alert.labels) = id then (message, delivered) :: messagesTo id history
    else messagesTo id history
  | .saved _ :: history => messagesTo id history
  | .removed _ :: history => messagesTo id history

def lastSent (id : Identity) (history : List Effect) : Option Message :=
  (messagesTo id history).head?.map Prod.fst

def lastDelivered (id : Identity) (history : List Effect) : Option Message :=
  ((messagesTo id history).find? Prod.snd).map Prod.fst

/-- Alertmanager may hold the alert as firing: no resolution has been delivered since it was
sent. -/
def mayFire (id : Identity) (history : List Effect) : Bool :=
  ((messagesTo id history).find? fun m => m.1.isFiring || m.2).any fun m => m.1.isFiring

variable {id : Identity} {s : AlertState} {endpoint : String} {message : Message}
  {alert : AlertmanagerAlert} {delivered : Bool}

theorem mayFire_firing (h : List Effect) :
    mayFire id (.sent endpoint (.firing alert) delivered :: h) =
      (if (endpoint, alert.labels) = id then true else mayFire id h) := by
  by_cases hid : (endpoint, alert.labels) = id <;>
    simp [mayFire, messagesTo, Message.alert, Message.isFiring, hid]

theorem mayFire_resolved (h : List Effect) :
    mayFire id (.sent endpoint (.resolved alert) delivered :: h) =
      (if delivered ∧ (endpoint, alert.labels) = id then false else mayFire id h) := by
  by_cases hid : (endpoint, alert.labels) = id <;> cases delivered <;>
    simp [mayFire, messagesTo, Message.alert, Message.isFiring, hid]

theorem mayFire_of_lastSent {history : List Effect}
    (h : lastSent id history = some (.firing alert)) : mayFire id history := by
  unfold lastSent at h
  cases hm : messagesTo id history with
  | nil => rw [hm] at h; cases h
  | cons m ms =>
    obtain ⟨message, delivered⟩ := m
    rw [hm] at h
    obtain rfl := Option.some.inj h
    simp [mayFire, hm, Message.isFiring]

/-- Only attempts to resolve that were lost can follow. -/
theorem mayFire_of_lastDelivered {history : List Effect}
    (h : lastDelivered id history = some (.firing alert)) : mayFire id history := by
  obtain ⟨⟨message, delivered⟩, hfind, rfl⟩ := Option.map_eq_some_iff.mp h
  unfold mayFire
  generalize messagesTo id history = messages at hfind
  induction messages with
  | nil => cases hfind
  | cons m ms ih =>
    obtain ⟨newest | newest, delivered'⟩ := m
    · rfl
    · cases delivered' with
      | false => exact ih hfind
      | true => cases hfind

/-- Rows have one issue each and name it, and hold every identity that may fire. -/
structure Tracked (idText : Id → String) (s : AlertState) : Prop where
  unique : UniqueOn ActiveAlert.issueId s.rows
  named : ∀ row ∈ s.rows, row.Named idText
  stored : ∀ id, mayFire id s.history → ∃ row ∈ s.rows, row.identity = id

namespace Tracked

variable {idText : Id → String} {a : ActiveAlert} {issueId : Id}

theorem empty : Tracked idText .empty :=
  ⟨.nil, fun _ h => absurd h List.not_mem_nil, fun _ h => absurd h Bool.false_ne_true⟩

theorem fire (h : Tracked idText s) {row : ActiveAlert} (hrow : row ∈ s.rows) (delivered : Bool) :
    Tracked idText (s.sent row.endpoint (.firing row.alert) delivered) := by
  refine ⟨h.unique, h.named, fun id hid => ?_⟩
  rw [AlertState.sent, mayFire_firing] at hid
  split_ifs at hid with heq
  · exact ⟨row, hrow, heq⟩
  · exact h.stored id hid

theorem resolve (h : Tracked idText s) (endpoint : String) (alert : AlertmanagerAlert)
    (delivered : Bool) : Tracked idText (s.sent endpoint (.resolved alert) delivered) := by
  refine ⟨h.unique, h.named, fun id hid => ?_⟩
  rw [AlertState.sent, mayFire_resolved] at hid
  split_ifs at hid
  exact h.stored id hid

/-- A row may be written over one with its identity, or one that no longer fires. -/
theorem save (h : Tracked idText s) (ha : a.Named idText)
    (hover : ∀ old, s.rowOf a.issueId = some old →
      old.identity = a.identity ∨ ¬ mayFire old.identity s.history) :
    Tracked idText (s.save a) := by
  refine ⟨AlertState.unique_save h.unique, fun row hrow => ?_, fun id hid => ?_⟩
  · rcases AlertState.mem_save.mp hrow with rfl | ⟨hrow, -⟩
    · exact ha
    · exact h.named row hrow
  · obtain ⟨row, hrow, rfl⟩ := h.stored id hid
    by_cases hk : row.issueId = a.issueId
    · have hof := AlertState.rowOf_of_mem h.unique hrow
      rw [hk] at hof
      rcases hover row hof with hsame | hquiet
      · exact ⟨a, AlertState.mem_save.mpr (.inl rfl), hsame.symm⟩
      · exact absurd hid hquiet
    · exact ⟨row, AlertState.mem_save.mpr (.inr ⟨hrow, hk⟩), rfl⟩

theorem remove (h : Tracked idText s)
    (hquiet : ∀ old, s.rowOf issueId = some old → ¬ mayFire old.identity s.history) :
    Tracked idText (s.remove issueId) := by
  refine ⟨h.unique.remove, fun row hrow => h.named row (mem_remove.mp hrow).1, fun id hid => ?_⟩
  obtain ⟨row, hrow, rfl⟩ := h.stored id hid
  refine ⟨row, mem_remove.mpr ⟨hrow, fun hk => ?_⟩, rfl⟩
  have hof := AlertState.rowOf_of_mem h.unique hrow
  rw [hk] at hof
  exact hquiet row hof hid

/-- After a resolution, the row no longer fires. -/
theorem leaves_resolve {f : Unit → AlertProg Unit} (h : Tracked idText s) {old : ActiveAlert}
    (hf : ∀ s', Tracked idText s' → s'.rows = s.rows → ¬ mayFire old.identity s'.history →
      (f ()).Leaves alertStore (Tracked idText) s') :
    ((Soika.resolve old).bind f).Leaves alertStore (Tracked idText) s := by
  rw [resolve_bind]
  refine leaves_read (by trivial) h fun now => leaves_send h (h.resolve _ _ _) ?_
  refine hf _ (h.resolve _ _ _) rfl ?_
  rw [AlertState.sent, mayFire_resolved, if_pos ⟨rfl, rfl⟩]
  exact Bool.false_ne_true

theorem leaves_deliver (h : Tracked idText s) {pending : ActiveAlert}
    (hnamed : pending.Named idText)
    (hover : ∀ old, s.rowOf pending.issueId = some old →
      old.identity = pending.identity ∨ ¬ mayFire old.identity s.history) :
    (deliver pending).Leaves alertStore (Tracked idText) s := by
  have hsaved := h.save hnamed hover
  have hmem : pending ∈ (s.save pending).rows := AlertState.mem_save.mpr (.inl rfl)
  refine leaves_save h (leaves_send hsaved (hsaved.fire hmem _) ?_)
  have hsent := hsaved.fire hmem true
  refine leaves_read (by trivial) hsent fun now => ?_
  have hrow := AlertState.rowOf_of_mem hsent.unique hmem
  refine leaves_last (leaves_save hsent (hsent.save hnamed fun old hold => .inl ?_))
  rw [hrow] at hold
  rw [← Option.some.inj hold]
  rfl

theorem leaves_prog (h : Tracked idText s) (parseUrl : String → Option Url) (op : AlertOperation) :
    (op.prog parseUrl idText).Leaves alertStore (Tracked idText) s := by
  refine op.leaves h ?_ ?_ ?_
  · intro pending hnamed _
    cases hrow : s.rowOf pending.issueId with
    | none => exact leaves_deliver h hnamed fun old hold => by simp [hrow] at hold
    | some old =>
      refine leaves_resolve h fun s' h' hrows hquiet => leaves_deliver h' hnamed fun old' hold' => ?_
      rw [AlertState.rowOf, hrows, ← AlertState.rowOf, hrow] at hold'
      exact .inr (Option.some.inj hold' ▸ hquiet)
  · intro saved pending hrow hnamed _ hissue hid
    refine leaves_deliver h hnamed fun old hold => .inl ?_
    rw [hissue, hrow] at hold
    rw [← Option.some.inj hold, hid]
  · intro saved hrow
    refine leaves_resolve h fun s' h' hrows hquiet => leaves_last (leaves_remove h' (h'.remove ?_))
    intro old hold
    rw [AlertState.rowOf, hrows, ← AlertState.rowOf, hrow] at hold
    exact Option.some.inj hold ▸ hquiet

end Tracked

/-- Every identity whose last message was a firing one is held by the row of its issue. -/
def NoOrphan (idText : Id → String) (s : AlertState) : Prop :=
  ∀ (id : Identity) (alert : AlertmanagerAlert),
    lastSent id s.history = some (.firing alert) ∨
        lastDelivered id s.history = some (.firing alert) →
      ∃ row, s.rowOf row.issueId = some row ∧ row.identity = id ∧ row.Named idText

/-- In every run, at every moment, no firing alert is orphaned. -/
theorem no_orphan (parseUrl : String → Option Url) (idText : Id → String)
    (moves : List AlertMove) : NoOrphan idText (afterAlerts parseUrl idText moves).state := by
  have hsound : Serial.Sound alertStore (fun _ => True) (Tracked idText)
      (afterAlerts parseUrl idText moves) :=
    Serial.Sound.run (fun op s h => (Tracked.leaves_prog h parseUrl op).mono fun _ h _ => h)
      Tracked.empty (Serial.endsIn_of_forall fun _ => trivial)
  have htracked := hsound.cut fun _ => trivial
  intro id alert hlast
  have hfire := hlast.elim mayFire_of_lastSent mayFire_of_lastDelivered
  obtain ⟨row, hrow, hid⟩ := htracked.stored id hfire
  exact ⟨row, AlertState.rowOf_of_mem htracked.unique hrow, hid, htracked.named row hrow⟩

end Soika
