import Soika.Adapters.SiteSpec
import Soika.Library.Guarded
import Soika.Retention.Sweep

/-! # Why events go

In every run of sweeps among other calls on the store, an event that is gone was deleted on purpose
by somebody else, or by a sweep that had found it past the limit or the age of its project. Issues
are merged without losing events.
-/

namespace Soika

open Interaction Table

/-- Ids of events are drawn once. -/
structure Store.EventsNumbered (s : Store) : Prop where
  unique : UniqueOn Event.id s.events
  fresh : ∀ e ∈ s.events, e.id < s.nextId

/-- What becomes of the events: they stay, one is stored, or some are deleted. -/
inductive EventStep (s s' : Store) : Bool → Prop
  | kept (hids : s'.events.map Event.id = s.events.map Event.id) (hnext : s.nextId ≤ s'.nextId) :
      EventStep s s' false
  | stored {e : Event} (hevents : s'.events = s.events ++ [e])
      (hfree : s.EventsNumbered → ∀ d ∈ s.events, d.id ≠ e.id) (hid : e.id < s'.nextId)
      (hnext : s.nextId ≤ s'.nextId) : EventStep s s' false
  | deleted (hsub : s'.events.Sublist s.events) (hnext : s.nextId ≤ s'.nextId) : EventStep s s' true

theorem EventStep.refl (s : Store) : EventStep s s false := .kept rfl le_rfl

theorem EventStep.numbered {s s' : Store} {b : Bool} (h : EventStep s s' b)
    (hs : s.EventsNumbered) : s'.EventsNumbered := by
  cases h with
  | kept hids hnext =>
    constructor
    · rw [UniqueOn, hids]
      exact hs.unique
    · intro e he
      obtain ⟨d, hd, hid⟩ := List.mem_map.mp (hids ▸ List.mem_map_of_mem he)
      exact hid ▸ (hs.fresh d hd).trans_le hnext
  | @stored e hevents hfree hid hnext =>
    constructor
    · rw [hevents]
      exact hs.unique.append_single (hfree hs)
    · intro d hd
      rw [hevents] at hd
      rcases List.mem_append.mp hd with hd | hd
      · exact (hs.fresh d hd).trans_le hnext
      · obtain rfl := List.mem_singleton.mp hd
        exact hid
  | deleted hsub hnext =>
    exact ⟨hs.unique.sublist (hsub.map Event.id), fun e he =>
      (hs.fresh e (hsub.subset he)).trans_le hnext⟩

theorem EventStep.stays {s s' : Store} (h : EventStep s s' false) {id : Id}
    (hid : id ∈ s.events.map Event.id) : id ∈ s'.events.map Event.id := by
  cases h with
  | kept hids _ => rwa [hids]
  | stored hevents _ _ _ =>
    rw [hevents, List.map_append]
    exact List.mem_append_left _ hid

/-- Who deletes events: those who delete their issue or their project, or prune. -/
def StoreCmd.deletes : StoreCmd → Bool
  | .deleteIssue _ | .deleteProject _ => true
  | .pruneEventsOverRetention _ _ | .deleteOlderThan _ _ => true
  | _ => false

variable {B : Backend} {s s' : Store}

theorem storeStep_eventStep (c : StoreCmd) (s : Store) :
    EventStep s (storeStep B c s).2 c.deletes := by
  have hupdated : ∀ {issueId f}, EventStep s (updateReturning B issueId f s).2 false := by
    intro issueId f
    rcases updateReturning_state f s with h | h
    · rw [h]
      exact .refl s
    · rw [h]
      exact .kept rfl le_rfl
  cases c with
  | insertEvent new =>
    simp only [storeStep]
    unfold insertEvent
    split
    · exact .stored rfl (fun hs d hd => (hs.fresh d hd).ne) (Nat.lt_succ_self _) (Nat.le_succ _)
    · exact .refl s
  | setStatus issueId status now => exact hupdated
  | mute issueId spec now => exact hupdated
  | updateProject id u =>
    simp only [storeStep]
    unfold updateProject
    split
    · exact .kept rfl le_rfl
    · exact .refl s
  | createProject events days => exact .kept rfl (Nat.le_succ _)
  | clearExpiredMutes now => exact .kept rfl le_rfl
  | countInWindow | findProject | projectIdsWithEvents => exact .refl s
  | deleteIssue id => exact .deleted List.filter_sublist le_rfl
  | deleteProject id => exact .deleted List.filter_sublist le_rfl
  | pruneEventsOverRetention projectId keep => exact .deleted List.filter_sublist le_rfl
  | deleteOlderThan projectId cutoff => exact .deleted List.filter_sublist le_rfl

theorem EventStep.commit {α : Type} {r : Except Error (α × Store)}
    (h : ∀ a s', r = .ok (a, s') → EventStep s s' false) :
    EventStep s (Soika.commit r s).2 false := by
  rcases commit_state (s := s) (r := r) with hstate | ⟨a, hok⟩
  · rw [hstate]
    exact .refl s
  · exact h a _ hok

theorem bumpExisting_eventStep {row : Issue} {u : IssueUpsert} {o : UpsertOutcome}
    (h : bumpExisting B row u s = .ok (o, s')) : EventStep s s' false := by
  obtain ⟨-, -, rfl⟩ := bumpExisting_eq_ok.mp h
  exact .kept rfl le_rfl

theorem insertIssue_eventStep {u : IssueUpsert} {draws : ℕ → String} {o : UpsertOutcome}
    (h : insertIssue B u draws s = .ok (o, s')) : EventStep s s' false := by
  obtain ⟨-, -, -, -, -, rfl⟩ := insertIssue_eq_ok.mp h
  exact .kept rfl (Nat.le_succ _)

theorem OverrideStep.events {issueId : Id} (h : OverrideStep B issueId s s') :
    EventStep s s' false := by
  cases h with
  | same => exact .refl s
  | rename _ => exact .kept rfl le_rfl
  | @merge target source fingerprint now htarget hsource =>
    have hne := (Store.collision_eq_some hsource).2.2.2
    have hmoved : ∀ e ∈ (s.repointEvents source.id target.id).events, e.issueId ≠ source.id := by
      intro e he
      obtain ⟨d, -, rfl⟩ := List.mem_map.mp he
      split
      · exact hne.symm
      · assumption
    apply EventStep.kept
    · change (remove Event.issueId source.id (s.repointEvents source.id target.id).events).map _ = _
      rw [remove, List.filter_eq_self.mpr fun e he => decide_eq_true (hmoved e he)]
      simp only [Store.repointEvents, Table.modify, List.map_map]
      apply List.map_congr_left
      intro e _
      simp only [Function.comp_apply]
      split <;> rfl
    · exact le_rfl

/-- A database with its calls other than those of sweeps, of which some delete events. -/
structure SharedHost extends SweepHost where
  deletes : calls.Cmd → Bool
  step_events : ∀ c s, EventStep s (machine.step c s).2 (deletes c)

def SqliteCmd.deletes : SqliteCmd → Bool
  | .store c => c.deletes
  | _ => false

theorem sqliteStep_eventStep (c : SqliteCmd) (s : Store) :
    EventStep s (sqliteStep c s).2 c.deletes := by
  cases c with
  | upsert u draws =>
    apply EventStep.commit
    rintro o s' hok
    rcases upsertOnce_eq_ok.mp hok with ⟨row, -, -, hbump⟩ | ⟨-, hinsert⟩
    · exact bumpExisting_eventStep hbump
    · exact insertIssue_eventStep hinsert
  | overrideFingerprint issueId fingerprint now =>
    apply EventStep.commit
    rintro i s' hok
    exact (overrideFingerprintOnce_ok hok).2.events
  | store c => exact storeStep_eventStep c s

def PgCmd.deletes : PgCmd → Bool
  | .store c => c.deletes
  | _ => false

theorem pgStep_eventStep (c : PgCmd) (s : Store) : EventStep s (pgStep c s).2 c.deletes := by
  cases c with
  | lockAndBump u =>
    apply EventStep.commit
    rintro o s' hok
    rcases lockAndBump_eq_ok.mp hok with ⟨row, out, -, -, hbump, -⟩ | ⟨-, -, rfl⟩
    · exact bumpExisting_eventStep hbump
    · exact .refl s'
  | insertOrIgnore u draws =>
    apply EventStep.commit
    rintro o s' hok
    rcases insertOrIgnore_eq_ok.mp hok with ⟨-, out, hinsert, -⟩ | ⟨-, -, -, rfl⟩
    · exact insertIssue_eventStep hinsert
    · exact .refl s'
  | lockAndMerge issueId fingerprint now =>
    apply EventStep.commit
    rintro o s' hok
    exact (lockAndMerge_ok hok).2.events
  | renameLocked issueId fingerprint now =>
    apply EventStep.commit
    rintro i s' hok
    exact (renameLocked_ok hok).2.events
  | store c => exact storeStep_eventStep c s

/-- SQLite, with any batches and any order of rows. -/
def SharedHost.sqlite (write : WritePolicy) (arrange : List Event → List Event)
    (arrange_perm : ∀ rows, (arrange rows).Perm rows) (arrangeIds : List Id → List Id)
    (arrangeIds_perm : ∀ ids, (arrangeIds ids).Perm ids) : SharedHost :=
  { sqliteDatabase with
    ordered := sqlite_ordered
    write
    arrange
    arrange_perm
    arrangeIds
    arrangeIds_perm
    deletes := SqliteCmd.deletes
    step_events := sqliteStep_eventStep }

/-- PostgreSQL, with any batches and any order of rows. -/
def SharedHost.postgres (write : WritePolicy) (arrange : List Event → List Event)
    (arrange_perm : ∀ rows, (arrange rows).Perm rows) (arrangeIds : List Id → List Id)
    (arrangeIds_perm : ∀ ids, (arrangeIds ids).Perm ids) : SharedHost :=
  { pgDatabase with
    ordered := postgres_ordered
    write
    arrange
    arrange_perm
    arrangeIds
    arrangeIds_perm
    deletes := PgCmd.deletes
    step_events := pgStep_eventStep }

abbrev insertCalls : Signature := ⟨Event, fun _ => Unit⟩

/-- `INSERT INTO events`, refused when the id is taken or the issue or project has no row. -/
def insertRow (B : Backend) (e : Event) (s : Store) : Except Error Unit × Store :=
  if s.admits e then
    (.ok (), { s with events := s.events ++ [e], nextId := max s.nextId (e.id + 1) })
  else (.error (.db B.foreignKeyViolation), s)

theorem insertRow_eventStep (e : Event) (s : Store) : EventStep s (insertRow B e s).2 false := by
  unfold insertRow
  split
  · rename_i hadmits
    simp only [Store.admits, Bool.and_eq_true, List.all_eq_true, decide_eq_true_eq] at hadmits
    exact .stored rfl (fun _ => hadmits.1.1) (Nat.lt_of_succ_le (le_max_right _ _)) (le_max_left _ _)
  · exact .refl s

namespace SharedHost

variable (H : SharedHost)

/-- The calls of sweeps and of the others, on one store. -/
abbrev sharedCalls : Signature := sweepCalls.sum (H.calls.sum insertCalls)

def inserts : Machine insertCalls Error Store := ⟨insertRow H.backend⟩

def shared : Machine H.sharedCalls Error Store := H.sweeps.sum (H.machine.sum H.inserts)

def sharedDeletes : H.sharedCalls.Cmd → Bool
  | .inl (.inl c) => c.deletes
  | .inl (.inr _) => true
  | .inr (.inl c) => H.deletes c
  | .inr (.inr _) => false

theorem sharedStep_eventStep (c : StoreCmd) (s : Store) :
    EventStep s (H.sharedStep c s).2 c.deletes := by
  rw [H.sharedStep_state]
  exact storeStep_eventStep c s

theorem shared_events (c : H.sharedCalls.Cmd) (s : Store) :
    EventStep s (H.shared.step c s).2 (H.sharedDeletes c) := by
  rcases c with (c | c) | c | e
  · exact H.sharedStep_eventStep c s
  · exact .deleted List.filter_sublist le_rfl
  · exact H.step_events c s
  · exact insertRow_eventStep e s

abbrev SweepHistory := List (Transition H.sharedCalls Error Store)

def Read (h : H.SweepHistory) (projectId : Id) (project : Option Project) : Prop :=
  @Answered H.sharedCalls Error Store h (.inl (.inl (.findProject projectId))) project

/-- What a sweep may do after what it has read: delete what the project's limit and age say. -/
def MaySweep (config : Config) (clock : Id → Timestamp) (h : H.SweepHistory) :
    H.sharedCalls.Cmd → Prop
  | .inl (.inl c) => c.deletes = false
  | .inl (.inr (.prune projectId keep)) =>
    ∃ project, H.Read h projectId project ∧ keep = config.limitOf project
  | .inl (.inr (.older projectId cutoff)) =>
    ∃ project, H.Read h projectId project ∧ 0 < config.daysOf project ∧
      retentionCutoff (config.daysOf project) (clock projectId) = some cutoff
  | .inr _ => False

variable {H} {config : Config} {clock : Id → Timestamp}

def MaySweepAlone (config : Config) (clock : Id → Timestamp)
    (h : List (Transition sweepCalls Error Store)) :
    sweepCalls.Cmd → Prop
  | .inl c => c.deletes = false
  | .inr (.prune projectId keep) =>
    ∃ project, @Answered sweepCalls Error Store h (.inl (.findProject projectId))
      project ∧ keep = config.limitOf project
  | .inr (.older projectId cutoff) =>
    ∃ project, @Answered sweepCalls Error Store h (.inl (.findProject projectId))
      project ∧ 0 < config.daysOf project ∧
        retentionCutoff (config.daysOf project) (clock projectId) = some cutoff

abbrev Permitted (H : SharedHost) (config : Config) (clock : Id → Timestamp) {α : Type}
    (p : Prog sweepCalls Error α)
    (h : List (Transition sweepCalls Error Store)) : Prop :=
  p.Obeys H.sweeps (.recording (MaySweepAlone config clock)) (fun _ _ => True) h

section Programs

variable {α β : Type} {h : List (Transition sweepCalls Error Store)}

theorem Permitted.bind {p : Prog sweepCalls Error β}
    {f : β → Prog sweepCalls Error α} (hp : Permitted H config clock p h)
    (hf : ∀ b h', Permitted H config clock (f b) h') : Permitted H config clock (p.bind f) h := by
  apply Prog.Obeys.bind
  apply hp.mono
  intro h' o _
  cases o with
  | ok b => exact hf b h'
  | err e => trivial
  | panic => trivial

theorem Permitted.ask_bind {c : StoreCmd} {f : c.Reply → Prog sweepCalls Error α}
    (hc : c.deletes = false)
    (hf : ∀ r h', @Answered sweepCalls Error Store h' (.inl c) r →
      Permitted H config clock (f r) h') :
    Permitted H config clock ((SweepHost.ask c).bind f) h := by
  apply Prog.Obeys.record
  · exact hc
  · intro s r s' h' _ _ hr
    exact hf r h' hr
  · exact fun _ _ _ => trivial

theorem deleteInBatches_calls (H : SweepHost) (what : String) (c : BatchCmd) (fuel total : ℕ) :
    (H.deleteInBatches what c fuel total).Calls fun c' => c' = Sum.inr c := by
  have hattempt : ∀ {α : Type} {f : Except Error ℕ → Prog sweepCalls Error α},
      (∀ r, (f r).Calls fun c' => c' = Sum.inr c) →
        ((@Prog.attempt sweepCalls Error (.inr c)).bind f).Calls fun c' => c' = Sum.inr c :=
    fun hf => ⟨rfl, hf⟩
  have hretry : ∀ retries,
      (SweepHost.retryBatch what c retries).Calls fun c' => c' = Sum.inr c := by
    intro retries
    induction retries with
    | zero =>
      apply hattempt
      intro r
      cases r <;> trivial
    | succ retries ih =>
      apply hattempt
      intro r
      cases r with
      | ok n => trivial
      | error e =>
        dsimp only
        split
        · exact ih
        · trivial
  induction fuel generalizing total with
  | zero => trivial
  | succ fuel ih =>
    apply (hretry _).bind
    intro deleted
    split
    · trivial
    · exact ih _

theorem Permitted.loop_bind {what : String} {c : BatchCmd} {fuel : ℕ}
    {f : ℕ → Prog sweepCalls Error α}
    (hc : ∀ h', h ⊆ h' → MaySweepAlone config clock h' (.inr c))
    (hf : ∀ n h', h ⊆ h' → Permitted H config clock (f n) h') :
    Permitted H config clock ((H.deleteInBatches what c fuel 0).bind f) h := by
  have hmay : ∀ (h' : List (Transition sweepCalls Error Store)) c', h ⊆ h' → c' = Sum.inr c →
      MaySweepAlone config clock h' c' := by
    rintro h' _ hsub rfl
    exact hc h' hsub
  have hretains := Prog.Obeys.retains (m := H.sweeps)
    (deleteInBatches_calls H.toSweepHost what c fuel 0) hmay
    (fun _ _ hsub hsub' => List.Subset.trans hsub' hsub) (List.Subset.refl h)
  apply Prog.Obeys.bind
  apply hretains.mono
  intro h' o hsub
  cases o with
  | ok n => exact hf n h' hsub
  | err e => trivial
  | panic => trivial

theorem sweepProject_permitted (fuel : ℕ) (projectId : Id) :
    Permitted H config clock
      (sweepProject SweepHost.sweptProjects (H.batchedEvents fuel) config clock projectId) h := by
  apply Permitted.ask_bind rfl
  intro project h' hread
  apply Permitted.loop_bind
  · exact fun h'' hsub => ⟨project, hread.mono hsub, rfl⟩
  · intro deleted h'' hsub
    dsimp only
    split
    · rename_i hdays
      cases hcutoff : retentionCutoff (config.daysOf project) (clock projectId) with
      | none => trivial
      | some cutoff =>
        apply Permitted.loop_bind
        · exact fun h₃ hsub' => ⟨project, (hread.mono hsub).mono hsub', hdays, hcutoff⟩
        · exact fun _ _ _ => trivial
    · trivial

theorem sweepProjects_permitted (fuel : ℕ) (ids : List Id) :
    Permitted H config clock
      (sweepProjects SweepHost.sweptProjects (H.batchedEvents fuel) config clock ids) h := by
  induction ids generalizing h with
  | nil => trivial
  | cons id ids ih =>
    apply (sweepProject_permitted fuel id).bind
    intro deleted h'
    apply Permitted.bind ih
    exact fun _ _ => trivial

theorem runRetention_permitted (fuel : ℕ) :
    Permitted H config clock (H.runRetention fuel config clock) h := by
  apply Permitted.ask_bind rfl
  intro ids h' _
  exact sweepProjects_permitted fuel ids

end Programs

theorem runRetention_mayShared (fuel : ℕ) :
    ((H.runRetention fuel config clock).inl : Prog H.sharedCalls Error ℕ).Obeys H.shared
      (.recording (H.MaySweep config clock)) (fun _ _ => True) [] := by
  have halone : Permitted H config clock (H.runRetention fuel config clock) [] :=
    runRetention_permitted fuel
  apply (Prog.Obeys.inl_recording (n := H.machine.sum H.inserts) halone [] ?_).mono fun _ _ _ => trivial
  rintro h (c | c) hmay
  · exact hmay
  · cases c with
    | prune projectId keep =>
      obtain ⟨project, hread, hkeep⟩ := hmay
      exact ⟨project, hread.inl [], hkeep⟩
    | older projectId cutoff =>
      obtain ⟨project, hread, hage⟩ := hmay
      exact ⟨project, hread.inl [], hage⟩

def sweeping (H : SharedHost) (config : Config) (fuel : ℕ) (clocks : List (Id → Timestamp))
    (s : Store) : Pool H.sharedCalls Error Store ℕ :=
  Pool.start (clocks.map fun clock => (H.runRetention fuel config clock).inl) s

/-- The event is past the limit of its project, or past its age, by this row of the project. -/
def Found (H : SharedHost) (config : Config) (clock : Id → Timestamp) (project : Option Project)
    (s : Store) (e : Event) : Prop :=
  (H.pruneCall e.projectId (config.limitOf project)).Over s.events e ∨ H.Aged config clock project e

theorem found_of_batch {c : BatchCmd} {s : Store} {e : Event} (hs : s.EventsNumbered)
    (he : e ∈ s.events) (hgone : e.id ∉ (H.batch c s).2.events.map Event.id) {h : H.SweepHistory}
    (hmay : H.MaySweep config clock h (.inl (.inr c))) :
    ∃ project, H.Read h e.projectId project ∧ H.Found config clock project s e := by
  have hdoomed : e.id ∈ H.doomed s c := by
    by_contra hnot
    apply hgone
    apply List.mem_map_of_mem
    simp only [SweepHost.batch, deleteIds, List.mem_filter, Bool.not_eq_true', List.contains_eq_mem,
      decide_eq_false_iff_not]
    exact ⟨he, hnot⟩
  cases c with
  | prune projectId keep =>
    obtain ⟨project, hread, rfl⟩ := hmay
    obtain ⟨rfl, hrank, -⟩ := (PruneCall.mem_doomed_iff H.ordered hs.unique he).mp hdoomed
    exact ⟨project, hread, .inl ⟨rfl, hrank⟩⟩
  | older projectId cutoff =>
    obtain ⟨project, hread, hdays, hcutoff⟩ := hmay
    obtain ⟨d, hd, hkey⟩ := List.mem_map.mp hdoomed
    obtain ⟨hmem, hold⟩ := List.mem_filter.mp ((H.arrange_perm _).subset (List.mem_of_mem_take hd))
    obtain rfl := hs.unique.eq_of_key hmem he hkey
    obtain rfl : d.projectId = projectId := of_decide_eq_true (Bool.and_eq_true_iff.mp hold).1
    exact ⟨project, hread, .inr ⟨hdays, cutoff, hcutoff, hold⟩⟩

section Runs

variable {fuel : ℕ} {clocks : List (Id → Timestamp)} {s : Store}
  {turns : List (Turn H.sharedCalls Error)}

theorem run_numbered (hs : s.EventsNumbered) (turns : List (Turn H.sharedCalls Error)) :
    ((H.sweeping config fuel clocks s).run H.shared turns).state.EventsNumbered :=
  (Pool.run_sound (fun c _ hs => (H.shared_events c _).numbered hs) hs
    (Pool.start_sound _ s) turns).1

theorem read_state {i : ℕ} {th : Thread H.sharedCalls Error Store ℕ}
    (hi : ((H.sweeping config fuel clocks s).run H.shared turns).threads[i]? = some th)
    {projectId : Id} {project : Option Project} (hread : H.Read th.history projectId project) :
    ∃ before, before <+: turns ∧
      project =
        ((H.sweeping config fuel clocks s).run H.shared before).state.projectById projectId := by
  obtain ⟨q, -, hsound⟩ := Pool.sound_at H.shared _ s turns hi
  obtain ⟨b, a, hmem⟩ := hread
  rcases Pool.exists_state (List.mem_of_getElem? hi) hmem with
    ⟨th', hth', hmem'⟩ | ⟨before, hsub, rfl⟩
  · obtain ⟨q', -, rfl⟩ := List.mem_map.mp hth'
    cases hmem'
  · refine ⟨before, hsub, ?_⟩
    obtain ⟨-, fault, hanswer⟩ := hsound.calls _ hmem
    cases fault with
    | some e => cases hanswer
    | none => exact (Except.ok.inj (congrArg Prod.fst hanswer)).symm

theorem maySweep_of_thread {i : ℕ} {h : H.SweepHistory} {c : H.sharedCalls.Cmd}
    {next : Except Error (H.sharedCalls.Reply c) → Prog H.sharedCalls Error ℕ}
    (hi : ((H.sweeping config fuel clocks s).run H.shared turns).threads[i]? =
      some ⟨.call c next, h⟩) :
    ∃ clock, clocks[i]? = some clock ∧ H.MaySweep config clock h c := by
  obtain ⟨q, hq, hsound⟩ := Pool.sound_at H.shared _ s turns hi
  rw [List.getElem?_map] at hq
  obtain ⟨clock, hclock, rfl⟩ := Option.map_eq_some_iff.mp hq
  exact ⟨clock, hclock, (hsound.permitted (H.runRetention_mayShared fuel)).2.1⟩

/-- A turn that deletes an event is a call of somebody else that deletes events, or the statement of
a sweep that had found the event. -/
theorem turn_explained (hs : s.EventsNumbered) {turn : Turn H.sharedCalls Error} {e : Event}
    (he : e ∈ ((H.sweeping config fuel clocks s).run H.shared turns).state.events)
    (hgone : e.id ∉ (((H.sweeping config fuel clocks s).run H.shared turns).turn
      H.shared turn).state.events.map Event.id) :
    (∃ c, turn = .other c ∧ H.sharedDeletes c = true) ∨
      ∃ i clock before, turn = .thread i none ∧ clocks[i]? = some clock ∧ before <+: turns ∧
        H.Found config clock
          (((H.sweeping config fuel clocks s).run H.shared before).state.projectById e.projectId)
          ((H.sweeping config fuel clocks s).run H.shared turns).state e := by
  have hthere := List.mem_map_of_mem (f := Event.id) he
  have hnumbered : ((H.sweeping config fuel clocks s).run H.shared turns).state.EventsNumbered :=
    run_numbered hs turns
  rcases ((H.sweeping config fuel clocks s).run H.shared turns).turn_cases H.shared turn with
    hsame | ⟨c, rfl, hsame⟩ | ⟨i, fault, h, c, next, rfl, hi, -, hsame⟩
  · rw [hsame] at hgone
    exact absurd hthere hgone
  · left
    refine ⟨c, rfl, ?_⟩
    rw [← Bool.not_eq_false]
    intro hkeeps
    have hstep := H.shared_events c ((H.sweeping config fuel clocks s).run H.shared turns).state
    rw [hkeeps] at hstep
    rw [hsame] at hgone
    exact hgone (hstep.stays hthere)
  · right
    rw [hsame] at hgone
    obtain ⟨clock, hclock, hmay⟩ := maySweep_of_thread hi
    cases fault with
    | some error => exact absurd hthere hgone
    | none =>
      rcases c with (c | c) | c
      · have hstep := H.sharedStep_eventStep c
          ((H.sweeping config fuel clocks s).run H.shared turns).state
        rw [show c.deletes = false from hmay] at hstep
        exact absurd (hstep.stays hthere) hgone
      · obtain ⟨project, hread, hfound⟩ := H.found_of_batch hnumbered he hgone hmay
        obtain ⟨before, hsub, rfl⟩ := read_state hi hread
        exact ⟨i, clock, before, rfl, hclock, hsub, hfound⟩
      · exact hmay.elim

end Runs

/-- In every run, an event that is gone was deleted by a call of somebody else that deletes events,
or by a sweep that had found it past the limit or the age that its project had at some time of the
run. -/
theorem losses_explained (H : SharedHost) (config : Config) (fuel : ℕ)
    (clocks : List (Id → Timestamp)) {s : Store} (hs : s.EventsNumbered)
    (earlier later : List (Turn H.sharedCalls Error)) :
    let runs turns := (H.sweeping config fuel clocks s).run H.shared turns
    ∀ id ∈ (runs earlier).state.events.map Event.id,
      id ∉ (runs (earlier ++ later)).state.events.map Event.id →
      ∃ meanwhile turn rest, later = meanwhile ++ turn :: rest ∧
        ∃ e ∈ (runs (earlier ++ meanwhile)).state.events, e.id = id ∧
          id ∉ (runs (earlier ++ meanwhile ++ [turn])).state.events.map Event.id ∧
          ((∃ c, turn = .other c ∧ H.sharedDeletes c = true) ∨
            ∃ i clock before, turn = .thread i none ∧ clocks[i]? = some clock ∧
              before <+: earlier ++ meanwhile ∧
              H.Found config clock ((runs before).state.projectById e.projectId)
                (runs (earlier ++ meanwhile)).state e) := by
  intro runs id hid hlost
  have happend : ∀ a b, runs (a ++ b) = (runs a).run H.shared b := fun a b => Pool.run_append ..
  rw [happend] at hlost
  obtain ⟨meanwhile, turn, rest, rfl, hthere, hgone⟩ :=
    Pool.exists_turn (P := fun s : Store => id ∈ s.events.map Event.id) hid hlost
  have hlast : runs (earlier ++ meanwhile ++ [turn]) =
      (runs (earlier ++ meanwhile)).turn H.shared turn := happend _ _
  rw [← happend] at hthere hgone
  rw [← hlast] at hgone
  obtain ⟨e, he, rfl⟩ := List.mem_map.mp hthere
  refine ⟨meanwhile, turn, rest, rfl, e, he, rfl, hgone, ?_⟩
  rw [hlast] at hgone
  exact turn_explained hs he hgone

end SharedHost

def SharedHost.small : SharedHost := .sqlite SweepHost.small.write id .refl id .refl

def sweptRuns (turns : List (Turn SharedHost.small.sharedCalls Error)) :
    Pool SharedHost.small.sharedCalls Error Store ℕ :=
  (SharedHost.small.sweeping ⟨100, 0, fun _ => true⟩ 4 [nextDay] threeEvents).run
    SharedHost.small.shared turns

/-- While a sweep goes on an event is stored, and the issue is muted. -/
def sweptTurns : List (Turn SharedHost.small.sharedCalls Error) :=
  [.thread 0 none, .other (.inr (.inr fourthEvent)), .thread 0 none,
    .other (.inr (.inl (.store (.mute 9 .forever (.atSecond 9))))), .thread 0 none]

theorem first_gone_of_sweptTurns : 1 ∉ (sweptRuns sweptTurns).state.events.map Event.id := by
  let s := (sweptRuns (sweptTurns.take 4)).state
  let call := SharedHost.small.pruneCall 0 2
  have hlast : (sweptRuns sweptTurns).state = (SharedHost.small.batch (.prune 0 2) s).2 := rfl
  have hid : UniqueOn Event.id s.events := by decide
  have hrank : ∀ e ∈ s.events, e.id = 1 → e.projectId = 0 ∧ call.rank s.events e = 3 := by decide
  rw [hlast]
  intro hmem
  obtain ⟨e, he, hone⟩ := List.mem_map.mp hmem
  obtain ⟨he, hkept⟩ := List.mem_filter.mp he
  obtain ⟨hproject, hlow⟩ := hrank e he hone
  have hdoomed : e.id ∈ call.doomed s.events := by
    rw [PruneCall.mem_doomed_iff sqlite_ordered hid he, hlow]
    exact ⟨hproject, by decide, by decide⟩
  simp only [Bool.not_eq_true', List.contains_eq_mem, decide_eq_false_iff_not] at hkept
  exact hkept hdoomed

theorem losses_explained_swept :
    ∃ meanwhile rest, sweptTurns = meanwhile ++ .thread 0 none :: rest ∧
      ∃ e ∈ (sweptRuns meanwhile).state.events, e.id = 1 ∧ ∃ before, before <+: meanwhile ∧
        SharedHost.small.Found ⟨100, 0, fun _ => true⟩ nextDay
          ((sweptRuns before).state.projectById e.projectId) (sweptRuns meanwhile).state e := by
  have hs : threeEvents.EventsNumbered := ⟨by decide, by decide⟩
  obtain ⟨meanwhile, turn, rest, hturns, e, he, hone, -, hcause⟩ := SharedHost.losses_explained
    SharedHost.small ⟨100, 0, fun _ => true⟩ 4 [nextDay] hs [] sweptTurns 1 (by decide)
    first_gone_of_sweptTurns
  have hmem : turn ∈ sweptTurns := hturns ▸ List.mem_append_right _ List.mem_cons_self
  rcases hcause with ⟨c, rfl, hdeletes⟩ | ⟨i, clock, before, rfl, hclock, hsub, hfound⟩
  · simp only [sweptTurns, List.mem_cons, List.not_mem_nil, or_false, reduceCtorEq, false_or,
      Turn.other.injEq] at hmem
    rcases hmem with rfl | rfl <;> cases hdeletes
  · simp only [sweptTurns, List.mem_cons, List.not_mem_nil, or_false, reduceCtorEq,
      Turn.thread.injEq, and_true] at hmem
    obtain rfl : i = 0 := by tauto
    obtain rfl := Option.some.inj hclock
    exact ⟨meanwhile, rest, hturns, e, he, hone, before, hsub, hfound⟩

end Soika
