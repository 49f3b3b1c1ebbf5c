import Soika.Alertmanager.Lifecycle

/-! # What the operations leave

An operation reads for a while and then does one of three things: it closes the alert
of its issue, extends it under the same identity, or closes it and sends another one.
What these leave in every case, every operation leaves.
-/

namespace Soika

open Interaction Table

abbrev Identity := String × OrdMap String String

def ActiveAlert.identity (a : ActiveAlert) : Identity := (a.endpoint, a.alert.labels)

def ActiveAlert.Named (idText : Id → String) (a : ActiveAlert) : Prop :=
  a.alert.labels.get "issue_id" = some (idText a.issueId)

variable {Q : AlertState → Prop} {α β : Type} {s : AlertState}

namespace AlertState

variable {a row : ActiveAlert} {issueId : Id}

theorem mem_save : row ∈ (s.save a).rows ↔ row = a ∨ row ∈ s.rows ∧ row.issueId ≠ a.issueId := by
  unfold save
  cases hrow : s.rowOf a.issueId with
  | none =>
    have hno := lookup_eq_none.mp hrow
    simp only [List.mem_append, List.mem_singleton]
    constructor
    · rintro (hrow | rfl)
      · exact .inr ⟨hrow, hno row hrow⟩
      · exact .inl rfl
    · rintro (rfl | ⟨hrow, -⟩)
      · exact .inr rfl
      · exact .inl hrow
  | some old =>
    obtain ⟨hold, hid⟩ := lookup_eq_some_mem hrow
    rw [mem_modify]
    constructor
    · rintro ⟨b, hb, rfl⟩
      split_ifs with hk
      · exact .inl rfl
      · exact .inr ⟨hb, hk⟩
    · rintro (rfl | ⟨hrow, hk⟩)
      · exact ⟨old, hold, if_pos hid⟩
      · exact ⟨row, hrow, if_neg hk⟩

theorem unique_save (hs : UniqueOn ActiveAlert.issueId s.rows) :
    UniqueOn ActiveAlert.issueId (s.save a).rows := by
  unfold save
  cases hrow : s.rowOf a.issueId with
  | none => exact hs.append_single (lookup_eq_none.mp hrow)
  | some old => exact hs.modify_to hs fun _ _ _ _ _ hb => hb

theorem rowOf_of_mem (hs : UniqueOn ActiveAlert.issueId s.rows) (hrow : row ∈ s.rows) :
    s.rowOf row.issueId = some row :=
  hs.lookup_of_mem hrow

end AlertState

def AlertCmd.Reads : AlertCmd → Prop
  | .saveAlert _ => False
  | .removeAlert _ => False
  | .send _ _ => False
  | _ => True

theorem Mishap.read_state (mishap : Mishap) (s : AlertState) (a : Except Error α) :
    (mishap.read s a).2 = s := by
  cases mishap <;> rfl

theorem AlertCmd.Reads.step {c : AlertCmd} (h : c.Reads) (w : World × Mishap) (s : AlertState) :
    ((alertStore w).step c s).2 = s := by
  cases c with
  | severity id => cases id <;> exact Mishap.read_state ..
  | saveAlert _ => exact h.elim
  | removeAlert _ => exact h.elim
  | send _ _ => exact h.elim
  | now => rfl
  | projectLabels => rfl
  | _ => exact Mishap.read_state ..

theorem Mishap.read_ok {mishap : Mishap} {a : Except Error α} {r : α} {s' : AlertState}
    (h : mishap.read s a = (.ok r, s')) : a = .ok r := by
  cases mishap with
  | none => exact congrArg Prod.fst h
  | lost e => cases h
  | unanswered e => cases h

theorem leaves_read {c : AlertCmd} (hc : c.Reads) {f : alertCalls.Reply c → AlertProg β}
    (hs : Q s) (hf : ∀ r, (f r).Leaves alertStore Q s) :
    ((ask c).bind f).Leaves alertStore Q s :=
  Prog.Leaves.read_bind (fun w s => hc.step w s) hs fun _ r _ _ => hf r

theorem leaves_last {p : AlertProg β} (h : (p.bind .ret).Leaves alertStore Q s) :
    p.Leaves alertStore Q s := by
  rwa [Prog.bind_ret] at h

theorem resolve_bind (old : ActiveAlert) (f : Unit → AlertProg β) :
    (resolve old).bind f =
      (ask .now).bind fun now =>
        (ask (.send old.endpoint (.resolved { old.alert with endsAt := now }))).bind f :=
  Prog.bind_assoc _ _ _

theorem leaves_findAlert {issueId : Id} {f : Option ActiveAlert → AlertProg β} (hs : Q s)
    (hf : (f (s.rowOf issueId)).Leaves alertStore Q s) :
    ((ask (.findAlert issueId)).bind f).Leaves alertStore Q s := by
  refine Prog.Leaves.read_bind (fun w s => AlertCmd.Reads.step (by trivial) w s) hs ?_
  intro w r s' h
  obtain rfl := Except.ok.inj (Mishap.read_ok h)
  exact hf

theorem leaves_findIssue {id : Id} {f : Option Issue → AlertProg β} (hs : Q s)
    (hnone : (f none).Leaves alertStore Q s)
    (hsome : ∀ issue, issue.id = id → (f (some issue)).Leaves alertStore Q s) :
    ((ask (.findIssue id)).bind f).Leaves alertStore Q s := by
  refine Prog.Leaves.read_bind (fun w s => AlertCmd.Reads.step (by trivial) w s) hs ?_
  intro w r s' h
  have hr : lookup Issue.id id w.1.issues = r := Except.ok.inj (Mishap.read_ok h)
  cases r with
  | none => exact hnone
  | some issue => exact hsome issue (lookup_eq_some_mem hr).2

theorem leaves_save {a : ActiveAlert} {f : Unit → AlertProg β} (hs : Q s)
    (hf : (f ()).Leaves alertStore Q (s.save a)) :
    ((ask (.saveAlert a)).bind f).Leaves alertStore Q s := by
  refine Prog.Leaves.ask_bind hs ?_ ?_
  · rintro ⟨w, mishap⟩ e s' h
    cases mishap <;> cases h
    · exact hs
    · exact hf.here
  · rintro ⟨w, mishap⟩ r s' h
    cases mishap <;> cases h
    exact hf

theorem leaves_remove {issueId : Id} {f : Unit → AlertProg β} (hs : Q s)
    (hf : (f ()).Leaves alertStore Q (s.remove issueId)) :
    ((ask (.removeAlert issueId)).bind f).Leaves alertStore Q s := by
  refine Prog.Leaves.ask_bind hs ?_ ?_
  · rintro ⟨w, mishap⟩ e s' h
    cases mishap <;> cases h
    · exact hs
    · exact hf.here
  · rintro ⟨w, mishap⟩ r s' h
    cases mishap <;> cases h
    exact hf

theorem leaves_send {endpoint : String} {message : Message} {f : Unit → AlertProg β} (hs : Q s)
    (hlost : Q (s.sent endpoint message false))
    (hf : (f ()).Leaves alertStore Q (s.sent endpoint message true)) :
    ((ask (.send endpoint message)).bind f).Leaves alertStore Q s := by
  refine Prog.Leaves.ask_bind hs ?_ ?_
  · rintro ⟨w, mishap⟩ e s' h
    cases mishap <;> cases h
    · exact hlost
    · exact hf.here
  · rintro ⟨w, mishap⟩ r s' h
    cases mishap <;> cases h
    exact hf

theorem leaves_ofExcept {a : Except Error α} {f : α → AlertProg β} (hs : Q s)
    (hf : ∀ x, a = .ok x → (f x).Leaves alertStore Q s) :
    ((ofExcept a).bind f).Leaves alertStore Q s := by
  cases a with
  | error e => exact hs
  | ok x => exact hf x rfl

theorem leaves_renderIssue {idText : Id → String} {settings : AlertSettings}
    {config : AlertmanagerConfig} {org : String} {project : ProjectRow} {issue : Issue}
    {trigger : String} {f : AlertmanagerAlert × ℤ → AlertProg β} (hs : Q s)
    (hf : ∀ alert seconds, alert.labels.get "issue_id" = some (idText issue.id) →
      (f (alert, seconds)).Leaves alertStore Q s) :
    ((renderIssue idText settings config org project issue trigger).bind f).Leaves alertStore Q s := by
  have hrest : ∀ names, (Prog.bind (effectiveSeverity project.id) fun severity => do
      let projectLabels ← ask .projectLabels
      let projectConfig := config.forProject projectLabels project.slug names severity
      let now ← ask .now
      let rendered ← Prog.orAbort (renderAlert projectConfig
        (variablesOf idText settings.baseUrl org project issue trigger) now)
      let alert ← ofExcept rendered
      let interval ← ask (.interval project.id)
      let now ← ask .now
      let endsAt ← Prog.orAbort (secondsAfter now (alertTtl interval.seconds))
      f ({ alert with endsAt }, interval.seconds)).Leaves alertStore Q s := by
    intro names
    unfold effectiveSeverity
    simp only [Prog.bind_eq, Prog.bind_assoc, Prog.pure_eq, Prog.ret_bind]
    refine leaves_read (by trivial) hs fun own => leaves_read (by trivial) hs fun global => ?_
    refine leaves_read (by trivial) hs fun projectLabels => leaves_read (by trivial) hs fun now => ?_
    refine Prog.Leaves.orAbort_bind hs fun rendered hrendered => ?_
    refine leaves_ofExcept hs fun alert halert => ?_
    subst halert
    refine leaves_read (by trivial) hs fun interval => leaves_read (by trivial) hs fun now => ?_
    refine Prog.Leaves.orAbort_bind hs fun endsAt _ => hf _ _ ?_
    exact (issueId_of_renderAlert hrendered).trans get_variablesOf_issueId
  unfold renderIssue effectiveNames
  simp only [Prog.bind_eq, Prog.bind_assoc, Prog.pure_eq, Prog.ret_bind] at hrest ⊢
  cases settings.envNames with
  | some names => exact hrest names
  | none => exact leaves_read (by trivial) hs hrest

theorem AlertOperation.leaves {parseUrl : String → Option Url} {idText : Id → String}
    (op : AlertOperation) (hs : Q s)
    (hreplace : ∀ pending : ActiveAlert, pending.Named idText → pending.lastSentAt = none →
      ((closeOld (s.rowOf pending.issueId)).bind fun _ => deliver pending).Leaves alertStore Q s)
    (hextend : ∀ saved pending : ActiveAlert, s.rowOf saved.issueId = some saved →
      pending.Named idText → pending.lastSentAt = none → pending.issueId = saved.issueId →
      pending.identity = saved.identity → (deliver pending).Leaves alertStore Q s)
    (hclose : ∀ saved : ActiveAlert, s.rowOf saved.issueId = some saved →
      (close saved).Leaves alertStore Q s) :
    (op.prog parseUrl idText).Leaves alertStore Q s := by
  cases op with
  | notify settings project issue trigger =>
    simp only [AlertOperation.prog, Soika.notify, Prog.bind_eq]
    split_ifs
    swap
    · exact hs
    refine leaves_read (by trivial) hs fun stored => leaves_ofExcept hs fun effective _ => ?_
    split_ifs
    swap
    · exact hs
    refine leaves_read (by trivial) hs fun org => leaves_renderIssue hs fun alert seconds hnamed => ?_
    exact leaves_findAlert hs
      (hreplace ⟨none, issue.id, effective.alertmanager.endpoint, trigger, alert⟩ hnamed rfl)
  | refresh settings config org issueId =>
    refine leaves_findAlert hs ?_
    cases hrow : s.rowOf issueId with
    | none => exact hs
    | some saved =>
      obtain rfl : saved.issueId = issueId := (lookup_eq_some_mem hrow).2
      refine Prog.Leaves.bind_ret (Prog.Leaves.result ?_)
      refine leaves_findIssue hs (hclose saved hrow) fun issue hissue => ?_
      refine leaves_read (by trivial) hs fun project => ?_
      cases project with
      | none => exact hclose saved hrow
      | some project =>
        dsimp only
        split_ifs
        swap
        · exact hclose saved hrow
        refine leaves_renderIssue hs fun alert seconds hnamed => ?_
        rw [hissue] at hnamed
        refine leaves_read (by trivial) hs fun now => leaves_read (by trivial) hs fun now' => ?_
        refine Prog.Leaves.orAbort_bind hs fun skip _ => ?_
        split_ifs with hskip hchanged
        · exact hs
        · have := hreplace ⟨none, saved.issueId, config.endpoint, saved.trigger, alert⟩ hnamed rfl
          rw [hrow] at this
          exact this
        · obtain ⟨hendpoint, hlabels⟩ := not_or.mp hchanged
          refine hextend saved _ hrow hnamed rfl rfl ?_
          exact Prod.ext (not_not.mp hendpoint).symm (not_not.mp hlabels).symm

end Soika
