import Mathlib.Tactic.Tauto
import Soika.Adapters.Event
import Soika.Adapters.Retry
import Soika.Library.Ranking

/-! # Pruning in batches

The sweep of one project, statement by statement, while events are being stored. A batch
deletes events of rank `keep` and more among those that are there, and an event has at
least that rank among all that there ever were; so the newest ones are never touched.
-/

namespace Soika

open Table Ranking

/-- What a sweep is called with. -/
structure PruneCall where
  backend : Backend
  write : WritePolicy
  projectId : Id
  retentionEvents : ℤ

namespace PruneCall

variable (call : PruneCall)

def keep : ℕ := (max call.retentionEvents 0).toNat

/-- The ids that one statement selects: `LIMIT batch OFFSET keep`, most recent first. -/
def doomed (events : List Event) : List Id :=
  let rows := (select Event.projectId call.projectId events).mergeSort (moreRecent call.backend)
  ((rows.drop call.keep).take call.write.deleteBatch).map Event.id

/-- One `DELETE`, with the rows it affected. -/
def deleteBatch (s : Store) : ℕ × Store :=
  let doomed := call.doomed s.events
  (s.events.countP fun e => doomed.contains e.id,
    { s with events := s.events.filter fun e => !doomed.contains e.id })

end PruneCall

/-- Where `delete_in_batches` is: in a batch that was attempted before, or at its end. -/
inductive PrunePhase where
  | running (total attempt : ℕ)
  | finished (total : ℕ)
  | failed (e : Error)
  deriving DecidableEq

/-- A sweep under way, with all event rows that there ever were. -/
structure PruneRun where
  store : Store
  held : List Event
  phase : PrunePhase

/-- An event is stored, or the sweep sends its statement, which may fail. -/
inductive PruneTurn where
  | insert (event : Event)
  | attempt (fault : Option Error)

/-- The row satisfies the primary key and the foreign keys of its table. -/
def Store.admits (s : Store) (event : Event) : Bool :=
  s.events.all (fun e => e.id ≠ event.id) && (s.issueById event.issueId).isSome &&
    (s.projectById event.projectId).isSome

namespace PruneRun

variable (call : PruneCall)

def start (s : Store) : PruneRun := ⟨s, s.events, .running 0 0⟩

/-- After an error: try again, give up on a conflict, or pass the error on. -/
def afterError (total attempt : ℕ) (e : Error) : PrunePhase :=
  if e.isBusy then
    if call.write.maxRetries ≤ attempt then .failed (.dbBusy "prune events over retention" e)
    else .running total (attempt + 1)
  else .failed e

def afterBatch (total deleted : ℕ) : PrunePhase :=
  if deleted < call.write.deleteBatch then .finished (total + deleted)
  else .running (total + deleted) 0

def turn (r : PruneRun) : PruneTurn → PruneRun
  | .insert event =>
    if r.store.admits event then
      { r with
        store := { r.store with events := r.store.events ++ [event] }
        held := r.held ++ [event] }
    else r
  | .attempt fault =>
    match r.phase, fault with
    | .running total attempt, some e => { r with phase := afterError call total attempt e }
    | .running total _, none =>
      { r with
        store := (call.deleteBatch r.store).2
        phase := afterBatch call total (call.deleteBatch r.store).1 }
    | _, _ => r

/-- The turns of a run, one after the other. -/
def run (turns : List PruneTurn) (r : PruneRun) : PruneRun := turns.foldl (turn call) r

end PruneRun

/-- Both databases compare instants as sorting needs it. -/
structure Backend.Ordered (B : Backend) : Prop where
  trans : ∀ a b c, B.le a b = true → B.le b c = true → B.le a c = true
  total : ∀ a b, B.le a b = true ∨ B.le b a = true

theorem sqlite_ordered : sqlite.Ordered where
  trans a b c hab hbc := by
    simp only [sqlite, decide_eq_true_eq, List.not_lt] at *
    exact List.le_trans hab hbc
  total a b := by
    simp only [sqlite, decide_eq_true_eq, List.not_lt]
    exact List.le_total ..

theorem postgres_ordered : postgres.Ordered where
  trans a b c hab hbc := by
    simp only [postgres, decide_eq_true_eq] at *
    exact hab.trans hbc
  total a b := by
    simp only [postgres, decide_eq_true_eq]
    exact le_total ..

variable {B : Backend}

theorem moreRecent_iff {a b : Event} : moreRecent B a b = true ↔
    B.le b.receivedAt a.receivedAt = true ∧
      (B.le a.receivedAt b.receivedAt = true → b.id ≤ a.id) := by
  simp only [moreRecent, Bool.and_eq_true, Bool.or_eq_true, Bool.not_eq_true', decide_eq_true_eq,
    Bool.eq_false_iff, ne_eq, imp_iff_not_or]

namespace Backend.Ordered

theorem totalPreorder (h : B.Ordered) : TotalPreorder (moreRecent B) where
  trans a b c hab hbc := by
    rw [moreRecent_iff] at *
    refine ⟨h.trans _ _ _ hbc.1 hab.1, fun hac => ?_⟩
    exact (hbc.2 (h.trans _ _ _ hab.1 hac)).trans (hab.2 (h.trans _ _ _ hac hbc.1))
  total a b := by
    rw [Bool.or_eq_true, moreRecent_iff, moreRecent_iff]
    have htime := h.total a.receivedAt b.receivedAt
    have hid := Nat.le_total a.id b.id
    tauto

theorem untied (h : B.Ordered) {events : List Event} (hid : UniqueOn Event.id events) :
    Untied (moreRecent B) events := by
  refine (List.pairwise_map.mp hid).imp fun {a b} hne => ?_
  have htotal := h.totalPreorder.total a b
  have hanti : ¬ (moreRecent B a b = true ∧ moreRecent B b a = true) := by
    rw [moreRecent_iff, moreRecent_iff]
    rintro ⟨⟨hba, hle⟩, hab, hge⟩
    exact hne (Nat.le_antisymm (hge hba) (hle hab))
  simp only [before, Bool.or_eq_true, Bool.and_eq_true, Bool.not_eq_true', Bool.eq_false_iff] at *
  tauto

end Backend.Ordered

/-- The column holds the instant as it was written, in a year of four digits. -/
structure Event.Dated (B : Backend) (e : Event) : Prop where
  year : e.receivedAt.FourDigitYear
  exact : B.ts e.receivedAt = e.receivedAt

theorem le_iff_of_dated (hB : B = sqlite ∨ B = postgres) {a b : Event} (ha : a.Dated B)
    (hb : b.Dated B) : B.le a.receivedAt b.receivedAt = true ↔ a.receivedAt ≤ b.receivedAt := by
  rcases hB with rfl | rfl
  · rw [← Timestamp.toRfc3339_le_iff ha.year hb.year]
    exact decide_eq_true_iff
  · have hexact : a.receivedAt.truncMicros = a.receivedAt := ha.exact
    have hexact' : b.receivedAt.truncMicros = b.receivedAt := hb.exact
    simp only [postgres, hexact, hexact', decide_eq_true_eq]

/-- Then an event stands before another when it was received later, or has the greater id. -/
theorem before_moreRecent_iff (hB : B = sqlite ∨ B = postgres) {a b : Event} (ha : a.Dated B)
    (hb : b.Dated B) : before (moreRecent B) a b = true ↔
      b.receivedAt < a.receivedAt ∨ b.receivedAt = a.receivedAt ∧ b.id < a.id := by
  simp only [before, Bool.and_eq_true, Bool.not_eq_true', Bool.eq_false_iff, ne_eq, moreRecent_iff,
    le_iff_of_dated hB ha hb, le_iff_of_dated hB hb ha]
  rcases lt_trichotomy b.receivedAt a.receivedAt with hlt | heq | hgt
  · simp [hlt, hlt.le, not_le.mpr hlt]
  · simp only [heq, le_refl, lt_irrefl, true_and, false_or, forall_const, not_le]
    exact and_iff_right_of_imp le_of_lt
  · simp [not_le.mpr hgt, not_lt.mpr hgt.le, hgt.ne']

namespace PruneCall

variable {call : PruneCall}

/-- How many events of the project, of those given, are more recent than an event. -/
def rank (call : PruneCall) (events : List Event) (e : Event) : ℕ :=
  Ranking.rank (moreRecent call.backend) (select Event.projectId call.projectId events) e

theorem rank_eq_countP (hB : call.backend = sqlite ∨ call.backend = postgres) {events : List Event}
    (hdated : ∀ d ∈ events, d.Dated call.backend) {e : Event} (he : e ∈ events) :
    call.rank events e = (select Event.projectId call.projectId events).countP fun d =>
      e.receivedAt < d.receivedAt ∨ e.receivedAt = d.receivedAt ∧ e.id < d.id := by
  apply List.countP_congr
  intro d hd
  rw [before_moreRecent_iff hB (hdated d (mem_select.mp hd).1) (hdated e he), decide_eq_true_iff]

theorem rank_mono (call : PruneCall) {events held : List Event} (h : events.Sublist held)
    (e : Event) : call.rank events e ≤ call.rank held e :=
  rank_le_of_sublist (h.filter _) e

theorem mem_doomed_iff (hB : call.backend.Ordered) {events : List Event}
    (hid : UniqueOn Event.id events) {e : Event} (he : e ∈ events) :
    e.id ∈ call.doomed events ↔ e.projectId = call.projectId ∧ call.keep ≤ call.rank events e ∧
      call.rank events e < call.keep + call.write.deleteBatch := by
  have hrows : UniqueOn Event.id (select Event.projectId call.projectId events) := hid.filter _
  have hwindow (d : Event) := hB.totalPreorder.mem_window_iff (hB.untied hrows) call.keep
    call.write.deleteBatch d
  simp only [doomed, List.mem_map, hwindow, mem_select]
  constructor
  · rintro ⟨d, ⟨⟨hd, hproject⟩, hrank⟩, hkey⟩
    obtain rfl := hid.eq_of_key hd he hkey
    exact ⟨hproject, hrank⟩
  · rintro ⟨hproject, hrank⟩
    exact ⟨e, ⟨⟨he, hproject⟩, hrank⟩, rfl⟩

end PruneCall

namespace PruneCall

variable {call : PruneCall} {s : Store}

theorem doomed_nodup {events : List Event} (hid : UniqueOn Event.id events) :
    (call.doomed events).Nodup := by
  have hrows : UniqueOn Event.id (select Event.projectId call.projectId events) := hid.filter _
  have hsorted : (((select Event.projectId call.projectId events).mergeSort
      (moreRecent call.backend)).map Event.id).Nodup :=
    ((List.mergeSort_perm _ _).map Event.id).nodup_iff.mpr hrows
  rw [doomed, List.map_take, List.map_drop]
  exact hsorted.sublist ((List.take_sublist _ _).trans (List.drop_sublist _ _))

/-- A statement deletes full batches until fewer rows are left past the first `keep`. -/
theorem deleteBatch_count (call : PruneCall) (hid : UniqueOn Event.id s.events) :
    (call.deleteBatch s).1 = min call.write.deleteBatch
      ((select Event.projectId call.projectId s.events).length - call.keep) := by
  have hlength : (call.doomed s.events).length = min call.write.deleteBatch
      ((select Event.projectId call.projectId s.events).length - call.keep) := by
    rw [doomed, List.length_map, List.length_take, List.length_drop, List.length_mergeSort]
  have hsame : ((s.events.filter fun e => (call.doomed s.events).contains e.id).map Event.id).Perm
      (call.doomed s.events) := by
    refine (List.perm_ext_iff_of_nodup (hid.filter _) (doomed_nodup hid)).mpr fun id => ?_
    simp only [List.mem_map, List.mem_filter, List.contains_iff_mem]
    constructor
    · rintro ⟨e, ⟨-, he⟩, rfl⟩
      exact he
    · intro hdoomed
      obtain ⟨e, he, rfl⟩ := List.mem_map.mp hdoomed
      have hrow := List.mem_mergeSort.mp (List.mem_of_mem_drop (List.mem_of_mem_take he))
      exact ⟨e, ⟨(mem_select.mp hrow).1, hdoomed⟩, rfl⟩
  rw [← hlength, ← hsame.length_eq, List.length_map, ← List.countP_eq_length_filter]
  rfl

theorem mem_deleteBatch_iff (hB : call.backend.Ordered) (hid : UniqueOn Event.id s.events)
    {e : Event} : e ∈ (call.deleteBatch s).2.events ↔ e ∈ s.events ∧
      (e.projectId = call.projectId → call.rank s.events e < call.keep ∨
        call.keep + call.write.deleteBatch ≤ call.rank s.events e) := by
  simp only [deleteBatch, List.mem_filter, Bool.not_eq_true', List.contains_eq_mem,
    decide_eq_false_iff_not]
  refine and_congr_right fun he => ?_
  rw [mem_doomed_iff hB hid he, not_and]
  exact imp_congr_right fun _ => by omega

theorem remove_deleteBatch (hB : call.backend.Ordered) (hid : UniqueOn Event.id s.events) :
    remove Event.projectId call.projectId (call.deleteBatch s).2.events =
      remove Event.projectId call.projectId s.events := by
  rw [remove, remove, deleteBatch, List.filter_filter]
  refine List.filter_congr fun e he => ?_
  by_cases hproject : e.projectId = call.projectId
  · simp [hproject]
  · have := (mem_doomed_iff hB hid he).not.mpr fun h => hproject h.1
    simpa [hproject] using this

theorem select_length_add (rows : List Event) (projectId : Id) :
    (select Event.projectId projectId rows).length +
      (remove Event.projectId projectId rows).length = rows.length := by
  rw [select, remove, rows.length_eq_length_filter_add fun e => e.projectId = projectId]
  simp

theorem deleteBatch_length (hB : call.backend.Ordered) (hid : UniqueOn Event.id s.events) :
    (call.deleteBatch s).1 +
        (select Event.projectId call.projectId (call.deleteBatch s).2.events).length =
      (select Event.projectId call.projectId s.events).length := by
  have hall : (call.deleteBatch s).1 + (call.deleteBatch s).2.events.length = s.events.length := by
    rw [s.events.length_eq_length_filter_add fun e => (call.doomed s.events).contains e.id,
      ← List.countP_eq_length_filter]
    rfl
  have hbefore := select_length_add s.events call.projectId
  have hafter := select_length_add (call.deleteBatch s).2.events call.projectId
  rw [remove_deleteBatch hB hid] at hafter
  omega

end PruneCall

end Soika
