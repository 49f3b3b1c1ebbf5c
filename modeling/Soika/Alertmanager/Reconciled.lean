import Soika.Alertmanager.Skip
import Soika.Library.Postcondition

/-! # What reconciliation leaves

A reconciliation that returns has made the row of its issue right: a live alert is
stored under the identity that the configuration gives it now and with a lease that
outlasts the interval, and an identity that was given up has been resolved; an alert
that is not live has been resolved and forgotten. Each branch establishes this in its
own way, with the clock and the rest of the world constant during the call.
-/

namespace Soika

open Interaction Table

namespace World

def projectConfig (w : World) (settings : AlertSettings) (config : AlertmanagerConfig)
    (project : ProjectRow) : AlertmanagerConfig :=
  config.forProject w.projectLabels project.slug (settings.envNames.getD w.names)
    (project.alertmanagerSeverity.or w.defaultSeverity)

/-- The refresh interval of a project: its own or the global one. -/
def interval (w : World) (project : ProjectRow) : RefreshInterval :=
  project.alertmanagerInterval.getD w.globalInterval

/-- The issue and the project of an alert that is live: the channel is enabled, the project is
there, neither muted nor orphaned, and the issue is unresolved. -/
def live (w : World) (config : AlertmanagerConfig) (issueId : Id) : Option (ProjectRow × Issue) := do
  let issue ← lookup Issue.id issueId w.issues
  let project ← lookup (fun p : ProjectRow => p.id) issue.projectId w.projects
  if config.enabled ∧ ¬ project.muted ∧ project.orphanedAt = none ∧ issue.status = .unresolved then
    some (project, issue)
  else none

end World

/-- Between two states, a message that resolves an alert was delivered to where it had been sent. -/
def ResolvedSince (saved : ActiveAlert) (now : Timestamp) (s s' : AlertState) : Prop :=
  ∃ effects, s'.history = effects ++ s.history ∧
    .sent saved.endpoint (.resolved { saved.alert with endsAt := now }) true ∈ effects

structure Current (idText : Id → String) (settings : AlertSettings) (config : AlertmanagerConfig)
    (org : String) (w : World) (project : ProjectRow) (issue : Issue) (saved : ActiveAlert)
    (s s' : AlertState) (row : ActiveAlert) : Prop where
  stored : s'.rowOf saved.issueId = some row
  /-- The endpoint and the labels, as they are rendered now. -/
  identity : ∃ labels annotations,
    renderContent (w.projectConfig settings config project)
        (variablesOf idText settings.baseUrl org project issue saved.trigger) =
      .ok (labels, annotations) ∧ row.identity = (config.endpoint, labels)
  lease : ∃ limit, secondsAfter w.now (w.interval project).seconds = some limit ∧
    limit < row.alert.endsAt
  resolved : saved.identity ≠ row.identity → ResolvedSince saved w.now s s'

/-- What reconciliation leaves of a row when it returns. -/
def Reconciled (idText : Id → String) (settings : AlertSettings) (config : AlertmanagerConfig)
    (org : String) (w : World) (saved : ActiveAlert) (s s' : AlertState) : Prop :=
  match w.live config saved.issueId with
  | some (project, issue) => ∃ row, Current idText settings config org w project issue saved s s' row
  | none => ResolvedSince saved w.now s s' ∧ s'.rowOf saved.issueId = none

theorem seconds_eq_some {s : ℤ} {d : Duration} :
    Duration.seconds s = some d ↔
      (-maxSeconds ≤ s ∧ s ≤ maxSeconds) ∧ s * 1000000000 = d := by
  unfold Duration.seconds
  split_ifs with h <;> simp [h]

theorem secondsAfter_eq_some {t u : Timestamp} {s : ℤ} :
    secondsAfter t s = some u ↔
      (-maxSeconds ≤ s ∧ s ≤ maxSeconds) ∧ u.nanos = t.nanos + s * 1000000000 := by
  unfold secondsAfter
  rw [Option.bind_eq_some_iff]
  constructor
  · rintro ⟨d, hd, hu⟩
    obtain ⟨hrange, rfl⟩ := seconds_eq_some.mp hd
    exact ⟨hrange, Timestamp.ofNanos_eq_some.mp hu⟩
  · rintro ⟨hrange, hu⟩
    exact ⟨_, seconds_eq_some.mpr ⟨hrange, rfl⟩, Timestamp.ofNanos_eq_some.mpr hu⟩

theorem lease_outlasts {now endsAt : Timestamp} {interval : RefreshInterval}
    (h : secondsAfter now (alertTtl interval.seconds) = some endsAt) :
    ∃ limit, secondsAfter now interval.seconds = some limit ∧ limit < endsAt := by
  obtain ⟨⟨-, hmax⟩, hends⟩ := secondsAfter_eq_some.mp h
  obtain ⟨hlow, hhigh⟩ := interval.inRange
  have httl : interval.seconds < alertTtl interval.seconds :=
    lt_max_of_lt_right (by omega)
  have hnow := now.inRange
  have hlast := endsAt.inRange
  refine ⟨⟨now.nanos + interval.seconds * 1000000000, by omega, by omega⟩, ?_, ?_⟩
  · apply secondsAfter_eq_some.mpr
    exact ⟨⟨by unfold maxSeconds; omega, by omega⟩, rfl⟩
  · apply lt_of_not_ge
    intro hle
    have hnanos := Timestamp.le_iff.mp hle
    dsimp only at hnanos
    omega

/-- What a skipped refresh found: its identity and a lease that outlasts the interval. -/
theorem nothingDue_eq_true {saved : ActiveAlert} {endpoint : String}
    {labels : OrdMap String String} {seconds : ℤ} {now now' : Timestamp}
    (h : nothingDue saved endpoint labels seconds now now' = some true) :
    saved.identity = (endpoint, labels) ∧
      ∃ limit, secondsAfter now' seconds = some limit ∧ limit < saved.alert.endsAt := by
  unfold nothingDue at h
  split_ifs at h with hchanged
  · cases h
  obtain ⟨hendpoint, hlabels⟩ := not_or.mp hchanged
  refine ⟨Prod.ext (not_not.mp hendpoint) (not_not.mp hlabels), ?_⟩
  cases hsent : saved.lastSentAt with
  | none => simp [hsent] at h
  | some sent =>
    rw [hsent] at h
    obtain ⟨due, -, h⟩ := Option.bind_eq_some_iff.mp h
    split_ifs at h with hearly
    · obtain ⟨limit, hlimit, h⟩ := Option.bind_eq_some_iff.mp h
      exact ⟨limit, hlimit, by simpa using h⟩
    · cases h

theorem AlertState.rowOf_save (s : AlertState) (a : ActiveAlert) :
    (s.save a).rowOf a.issueId = some a := by
  unfold save
  cases hrow : s.rowOf a.issueId with
  | none =>
    change lookup _ _ (s.rows ++ [a]) = _
    rw [lookup_append_single, ← AlertState.rowOf, hrow, if_pos rfl]
    rfl
  | some old =>
    change lookup _ _ (modify _ _ _ s.rows) = _
    rw [lookup_modify_to (fun _ _ => rfl), ← AlertState.rowOf, hrow]
    rfl

theorem AlertState.rowOf_remove (s : AlertState) (issueId : Id) :
    (s.remove issueId).rowOf issueId = none :=
  lookup_remove_self issueId s.rows

section

variable {w : World} {s : AlertState} {α β : Type} {Q : α → AlertState → Prop}

/-- The worlds of the calls of one reconciliation: `w`, with whatever goes wrong. -/
abbrev In (w : World) : World × Mishap → Prop := fun x => x.1 = w

theorem Mishap.read_answered {mishap : Mishap} {a : Except Error β} {r : β} {s' : AlertState}
    (h : mishap.read s a = (.ok r, s')) : Mishap.none.read s a = (.ok r, s') := by
  cases mishap with
  | none => exact h
  | lost e => cases h
  | unanswered e => cases h

/-- What goes wrong with a look changes nothing but whether it is answered. -/
theorem AlertCmd.Reads.step_ok {c : AlertCmd} (hc : c.Reads) {mishap : Mishap}
    {r : alertCalls.Reply c} {s' : AlertState}
    (h : alertStep w mishap c s = (.ok r, s')) : alertStep w .none c s = (.ok r, s') := by
  cases c with
  | severity id => cases id <;> exact Mishap.read_answered h
  | saveAlert _ => exact hc.elim
  | removeAlert _ => exact hc.elim
  | send _ _ => exact hc.elim
  | now => exact h
  | projectLabels => exact h
  | _ => exact Mishap.read_answered h

theorem returns_read {c : AlertCmd} (hc : c.Reads) {r : alertCalls.Reply c}
    {f : alertCalls.Reply c → AlertProg α} (hr : alertStep w .none c s = (.ok r, s))
    (hf : (f r).Returns alertStore (In w) Q s) :
    ((ask c).bind f).Returns alertStore (In w) Q s := by
  apply Prog.returns_bind.mpr
  apply Prog.returns_ask.mpr
  rintro ⟨_, mishap⟩ rfl r' s' hstep
  have hanswer := (hc.step_ok hstep).symm.trans hr
  cases hanswer
  exact hf

theorem returns_ofExcept {a : Except Error β} {f : β → AlertProg α}
    (hf : ∀ x, a = .ok x → (f x).Returns alertStore (In w) Q s) :
    ((ofExcept a).bind f).Returns alertStore (In w) Q s := by
  cases a with
  | error e => trivial
  | ok x => exact hf x rfl

theorem returns_orAbort_bind {a : Option β} {f : β → AlertProg α}
    (hf : ∀ x, a = some x → (f x).Returns alertStore (In w) Q s) :
    ((Prog.orAbort a).bind f).Returns alertStore (In w) Q s :=
  Prog.returns_bind.mpr (Prog.returns_orAbort.mpr hf)

theorem returns_save {a : ActiveAlert} {f : Unit → AlertProg α}
    (hf : (f ()).Returns alertStore (In w) Q (s.save a)) :
    ((ask (.saveAlert a)).bind f).Returns alertStore (In w) Q s := by
  apply Prog.returns_bind.mpr
  apply Prog.returns_ask.mpr
  rintro ⟨_, mishap⟩ rfl r s' hstep
  cases mishap <;> cases hstep
  exact hf

theorem returns_remove {issueId : Id} {f : Unit → AlertProg α}
    (hf : (f ()).Returns alertStore (In w) Q (s.remove issueId)) :
    ((ask (.removeAlert issueId)).bind f).Returns alertStore (In w) Q s := by
  apply Prog.returns_bind.mpr
  apply Prog.returns_ask.mpr
  rintro ⟨_, mishap⟩ rfl r s' hstep
  cases mishap <;> cases hstep
  exact hf

theorem returns_send {endpoint : String} {message : Message} {f : Unit → AlertProg α}
    (hf : (f ()).Returns alertStore (In w) Q (s.sent endpoint message true)) :
    ((ask (.send endpoint message)).bind f).Returns alertStore (In w) Q s := by
  apply Prog.returns_bind.mpr
  apply Prog.returns_ask.mpr
  rintro ⟨_, mishap⟩ rfl r s' hstep
  cases mishap <;> cases hstep
  exact hf

theorem returns_last {p : AlertProg α} (h : (p.bind .ret).Returns alertStore (In w) Q s) :
    p.Returns alertStore (In w) Q s := by
  rwa [Prog.bind_ret] at h

def AlertState.resolved (s : AlertState) (saved : ActiveAlert) (now : Timestamp) : AlertState :=
  s.sent saved.endpoint (.resolved { saved.alert with endsAt := now }) true

theorem returns_resolve {saved : ActiveAlert} {f : Unit → AlertProg α}
    (hf : (f ()).Returns alertStore (In w) Q (s.resolved saved w.now)) :
    ((resolve saved).bind f).Returns alertStore (In w) Q s := by
  rw [resolve_bind]
  exact returns_read (by trivial) rfl (returns_send hf)

theorem returns_close {saved : ActiveAlert} {Q : Unit → AlertState → Prop}
    (hQ : Q () ((s.resolved saved w.now).remove saved.issueId)) :
    (close saved).Returns alertStore (In w) Q s :=
  returns_resolve (returns_last (returns_remove hQ))

/-- The state after a delivery: the row is written before and after the message. -/
def AlertState.delivered (s : AlertState) (pending : ActiveAlert) (now : Timestamp) : AlertState :=
  ((s.save pending).sent pending.endpoint (.firing pending.alert) true).save
    { pending with lastSentAt := some now }

theorem returns_deliver {pending : ActiveAlert} {Q : Unit → AlertState → Prop}
    (hQ : Q () (s.delivered pending w.now)) :
    (deliver pending).Returns alertStore (In w) Q s :=
  returns_save (returns_send (returns_read (by trivial) rfl (returns_last (returns_save hQ))))

theorem returns_renderIssue {idText : Id → String} {settings : AlertSettings}
    {config : AlertmanagerConfig} {org : String} {project : ProjectRow} {issue : Issue}
    {trigger : String} {f : AlertmanagerAlert × ℤ → AlertProg α}
    (hproject : lookup (fun p : ProjectRow => p.id) project.id w.projects = some project)
    (hf : ∀ alert : AlertmanagerAlert,
      renderContent (w.projectConfig settings config project)
          (variablesOf idText settings.baseUrl org project issue trigger) =
        .ok (alert.labels, alert.annotations) →
      secondsAfter w.now (alertTtl (w.interval project).seconds) = some alert.endsAt →
      (f (alert, (w.interval project).seconds)).Returns alertStore (In w) Q s) :
    ((renderIssue idText settings config org project issue trigger).bind f).Returns alertStore
      (In w) Q s := by
  have hrest : (Prog.bind (effectiveSeverity project.id) fun severity => do
      let projectLabels ← ask .projectLabels
      let projectConfig := config.forProject projectLabels project.slug
        (settings.envNames.getD w.names) severity
      let now ← ask .now
      let rendered ← Prog.orAbort (renderAlert projectConfig
        (variablesOf idText settings.baseUrl org project issue trigger) now)
      let alert ← ofExcept rendered
      let interval ← ask (.interval project.id)
      let now ← ask .now
      let endsAt ← Prog.orAbort (secondsAfter now (alertTtl interval.seconds))
      f ({ alert with endsAt }, interval.seconds)).Returns alertStore (In w) Q s := by
    unfold effectiveSeverity
    simp only [Prog.bind_eq, Prog.bind_assoc, Prog.pure_eq, Prog.ret_bind]
    have hseverity : alertStep w .none (.severity (some project.id)) s =
        (.ok project.alertmanagerSeverity, s) := by simp [alertStep, hproject, Mishap.read]
    have hinterval : alertStep w .none (.interval project.id) s = (.ok (w.interval project), s) := by
      simp [alertStep, hproject, Mishap.read, World.interval]
    apply returns_read (by trivial) hseverity
    apply returns_read (by trivial) rfl
    apply returns_read (by trivial) rfl
    apply returns_read (by trivial) rfl
    apply returns_orAbort_bind
    intro rendered hrendered
    apply returns_ofExcept
    rintro alert rfl
    apply returns_read (by trivial) hinterval
    apply returns_read (by trivial) rfl
    apply returns_orAbort_bind
    intro endsAt hends
    have hcontent := content_of_renderAlert hrendered
    exact hf { alert with endsAt } hcontent hends
  unfold renderIssue effectiveNames
  simp only [Prog.bind_eq, Prog.bind_assoc, Prog.pure_eq, Prog.ret_bind] at hrest ⊢
  cases hnames : settings.envNames with
  | some names =>
    rw [hnames] at hrest
    exact hrest
  | none =>
    rw [hnames] at hrest
    exact returns_read (by trivial) rfl hrest

end

section

variable {idText : Id → String} {settings : AlertSettings} {config : AlertmanagerConfig}
  {org : String} {w : World} {project : ProjectRow} {issue : Issue} {saved : ActiveAlert}
  {s : AlertState}

theorem ResolvedSince.resolved (saved : ActiveAlert) (now : Timestamp) (s : AlertState) :
    ResolvedSince saved now s (s.resolved saved now) :=
  ⟨[_], rfl, List.mem_singleton.mpr rfl⟩

theorem ResolvedSince.later {now : Timestamp} {s' s'' : AlertState}
    (h : ResolvedSince saved now s s') (hlater : ∃ effects, s''.history = effects ++ s'.history) :
    ResolvedSince saved now s s'' := by
  obtain ⟨effects, heffects, hmem⟩ := h
  obtain ⟨later, hlater⟩ := hlater
  refine ⟨later ++ effects, ?_, List.mem_append_right _ hmem⟩
  rw [hlater, heffects, List.append_assoc]

theorem AlertState.delivered_history (s : AlertState) (pending : ActiveAlert) (now : Timestamp) :
    ∃ effects, (s.delivered pending now).history = effects ++ s.history :=
  ⟨[_, _, _], rfl⟩

/-- What a delivery leaves: the row with the identity and the lease of the alert. -/
theorem current_delivered {alert : AlertmanagerAlert} {startsAt : Timestamp} {s' : AlertState}
    (hcontent : renderContent (w.projectConfig settings config project)
      (variablesOf idText settings.baseUrl org project issue saved.trigger) =
        .ok (alert.labels, alert.annotations))
    (hends : secondsAfter w.now (alertTtl (w.interval project).seconds) = some alert.endsAt)
    (hresolved : saved.identity ≠ (config.endpoint, alert.labels) →
      ResolvedSince saved w.now s (s'.delivered ⟨none, saved.issueId, config.endpoint,
        saved.trigger, { alert with startsAt }⟩ w.now)) :
    ∃ row, Current idText settings config org w project issue saved s
      (s'.delivered ⟨none, saved.issueId, config.endpoint, saved.trigger,
        { alert with startsAt }⟩ w.now) row :=
  ⟨_, {
    stored := AlertState.rowOf_save _ _
    identity := ⟨_, _, hcontent, rfl⟩
    lease := lease_outlasts hends
    resolved := hresolved }⟩

theorem returns_refreshLive (hrow : s.rowOf saved.issueId = some saved)
    (hproject : lookup (fun p : ProjectRow => p.id) project.id w.projects = some project) :
    (refreshLive idText settings config org project issue saved).Returns alertStore (In w)
      (fun _ s' => ∃ row, Current idText settings config org w project issue saved s s' row) s := by
  apply returns_renderIssue hproject
  intro alert hcontent hends
  apply returns_read (by trivial) rfl
  apply returns_read (by trivial) rfl
  apply returns_orAbort_bind
  intro skip hskip
  split_ifs with hdue hchanged
  · subst hdue
    obtain ⟨hidentity, hlease⟩ := nothingDue_eq_true hskip
    exact ⟨saved, hrow, ⟨_, _, hcontent, hidentity⟩, hlease, fun hne => absurd rfl hne⟩
  · apply returns_resolve
    apply returns_deliver
    apply current_delivered hcontent hends
    intro _
    exact (ResolvedSince.resolved saved w.now s).later (AlertState.delivered_history ..)
  · apply returns_deliver
    apply current_delivered hcontent hends
    intro hne
    obtain ⟨hendpoint, hlabels⟩ := not_or.mp hchanged
    exact absurd (Prod.ext (not_not.mp hendpoint) (not_not.mp hlabels)) hne

/-- Whenever reconciliation returns, it has made the row right. -/
theorem returns_reconcile (hrow : s.rowOf saved.issueId = some saved) :
    (reconcile idText settings config org saved).Returns alertStore (In w)
      (fun _ s' => Reconciled idText settings config org w saved s s') s := by
  have hclose (hlive : w.live config saved.issueId = none) :
      (close saved).Returns alertStore (In w)
        (fun _ s' => Reconciled idText settings config org w saved s s') s := by
    apply returns_close
    unfold Reconciled
    rw [hlive]
    exact ⟨(ResolvedSince.resolved saved w.now s).later ⟨[_], rfl⟩, AlertState.rowOf_remove ..⟩
  apply returns_read (by trivial) rfl
  cases hissue : lookup Issue.id saved.issueId w.issues with
  | none => exact hclose (by simp [World.live, hissue])
  | some issue =>
    apply returns_read (by trivial) rfl
    cases hproject : lookup (fun p : ProjectRow => p.id) issue.projectId w.projects with
    | none => exact hclose (by simp [World.live, hissue, hproject])
    | some project =>
      have hid : project.id = issue.projectId := (lookup_eq_some_mem hproject).2
      dsimp only
      split_ifs with hlive
      · apply Prog.Returns.mono _ (returns_refreshLive hrow (hid ▸ hproject))
        intro _ s' hcurrent
        have hsome : w.live config saved.issueId = some (project, issue) := by
          simp only [World.live, hissue, hproject, Option.bind_eq_bind, Option.bind_some,
            if_pos hlive]
        unfold Reconciled
        rw [hsome]
        exact hcurrent
      · apply hclose
        simp only [World.live, hissue, hproject, Option.bind_eq_bind, Option.bind_some,
          if_neg hlive]

end

/-- When reconciliation of a stored row returns, the row of a live alert holds what the
configuration renders for the issue now, with a lease that outlasts the interval, and what it held
before under another identity has been resolved; an alert that is not live has been resolved and
its row removed. -/
theorem reconcile_postcondition (idText : Id → String) (settings : AlertSettings)
    (config : AlertmanagerConfig) (org : String) (w : World) (mishaps : ℕ → Mishap)
    (saved : ActiveAlert) (s s' : AlertState) (hrow : s.rowOf saved.issueId = some saved)
    (hrun : (reconcile idText settings config org saved).runIn alertStore
      (fun n => (w, mishaps n)) s = (.ok (), s')) :
    Reconciled idText settings config org w saved s s' :=
  (returns_reconcile hrow).runIn (fun _ => rfl) hrun

/-- The default severity is lowered while the issue is alerted. -/
def loweredWorld : World :=
  { exampleWorld .unresolved with defaultSeverity := some .warning, now := .atSecond 130 }

def loweredRun : Interaction.Outcome Error Unit × AlertState :=
  (reconcile exampleIdText exampleSettings (channelNamed "SoikaIssue") "Soika" staleRow).runIn
    alertStore (fun _ => (loweredWorld, .none)) ⟨[staleRow], []⟩

theorem reconcile_postcondition_loweredSeverity :
    loweredRun.1 = .ok () ∧
      Reconciled exampleIdText exampleSettings (channelNamed "SoikaIssue") "Soika" loweredWorld
        staleRow ⟨[staleRow], []⟩ loweredRun.2 := by
  have hok : loweredRun.1 = .ok () := rfl
  refine ⟨hok, ?_⟩
  exact reconcile_postcondition exampleIdText exampleSettings (channelNamed "SoikaIssue") "Soika"
    loweredWorld (fun _ => .none) staleRow ⟨[staleRow], []⟩ loweredRun.2 (by decide)
    (Prod.ext hok rfl)

end Soika
