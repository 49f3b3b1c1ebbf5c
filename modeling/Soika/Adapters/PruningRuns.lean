import Mathlib.Data.List.Perm.Subperm
import Soika.Adapters.Pruning

/-! # Runs of a sweep

What holds after every statement of a sweep and every event stored in between, and from it
how long the sweep takes, what it never deletes, and what it leaves.
-/

namespace Soika

open Table Ranking

/-- The rows deleted so far, unless an error has ended the sweep. -/
def PrunePhase.total : PrunePhase → Option ℕ
  | running total _ => some total
  | finished total => some total
  | failed _ => none

namespace PruneRun

variable {call : PruneCall} {s : Store} {r : PruneRun}

structure Sound (call : PruneCall) (s : Store) (r : PruneRun) : Prop where
  unique : UniqueOn Event.id r.store.events
  sublist : r.store.events.Sublist r.held
  newest : ∀ e ∈ r.held, e.projectId = call.projectId → call.rank r.held e < call.keep →
    e ∈ r.store.events
  others : remove Event.projectId call.projectId r.store.events =
    remove Event.projectId call.projectId r.held
  counted : ∀ total, r.phase.total = some total →
    total + (select Event.projectId call.projectId r.store.events).length =
      (select Event.projectId call.projectId r.held).length
  issues : r.store.issues = s.issues

theorem Sound.start (call : PruneCall) (hid : UniqueOn Event.id s.events) :
    (start s).Sound call s where
  unique := hid
  sublist := List.Sublist.refl _
  newest _ he _ _ := he
  others := rfl
  counted total h := by
    cases h
    exact Nat.zero_add _
  issues := rfl

theorem Sound.insert (h : r.Sound call s) {event : Event}
    (hnew : ∀ e ∈ r.store.events, e.id ≠ event.id) :
    Sound call s { r with
      store := { r.store with events := r.store.events ++ [event] }
      held := r.held ++ [event] } where
  unique := h.unique.append_single hnew
  sublist := h.sublist.append (List.Sublist.refl _)
  newest e he hproject hrank := by
    rcases List.mem_append.mp he with he | he
    · have hle := PruneCall.rank_mono call (List.sublist_append_left r.held [event]) e
      exact List.mem_append_left _ (h.newest e he hproject (hle.trans_lt hrank))
    · exact List.mem_append_right _ he
  others := by
    have := h.others
    simp only [remove, List.filter_append] at this ⊢
    rw [this]
  counted total htotal := by
    have := h.counted total htotal
    simp only [select_append, List.length_append]
    omega
  issues := h.issues

theorem Sound.attempt (hB : call.backend.Ordered) (h : r.Sound call s) (fault : Option Error) :
    (r.turn call (.attempt fault)).Sound call s := by
  obtain ⟨store, held, phase⟩ := r
  cases phase with
  | finished total => exact h
  | failed e => exact h
  | running total attempt =>
    cases fault with
    | some e =>
      refine { h with counted := fun total' htotal => ?_ }
      have : total' = total := by
        simp only [turn, afterError] at htotal
        split_ifs at htotal <;> cases htotal
        rfl
      rw [this]
      exact h.counted total rfl
    | none =>
      have hlength := PruneCall.deleteBatch_length hB h.unique
      refine ⟨h.unique.filter _, List.filter_sublist.trans h.sublist, ?_, ?_, ?_, h.issues⟩
      · intro e he hproject hrank
        have hle := PruneCall.rank_mono call h.sublist e
        exact (PruneCall.mem_deleteBatch_iff hB h.unique).mpr
          ⟨h.newest e he hproject hrank, fun _ => .inl (hle.trans_lt hrank)⟩
      · exact (PruneCall.remove_deleteBatch hB h.unique).trans h.others
      · intro total' htotal
        have hcounted := h.counted total rfl
        have : total' = total + (call.deleteBatch store).1 := by
          simp only [turn, afterBatch] at htotal
          split_ifs at htotal <;> cases htotal <;> rfl
        simp only [turn] at *
        omega

theorem Sound.turn (hB : call.backend.Ordered) (h : r.Sound call s) (t : PruneTurn) :
    (r.turn call t).Sound call s := by
  cases t with
  | attempt fault => exact h.attempt hB fault
  | insert event =>
    rw [PruneRun.turn]
    split
    · rename_i hadmits
      simp only [Store.admits, Bool.and_eq_true, List.all_eq_true, decide_eq_true_eq] at hadmits
      exact h.insert hadmits.1.1
    · exact h

theorem Sound.run (hB : call.backend.Ordered) (h : r.Sound call s) (turns : List PruneTurn) :
    (r.run call turns).Sound call s := by
  induction turns generalizing r with
  | nil => exact h
  | cons t turns ih => exact ih (h.turn hB t)

theorem turn_held (r : PruneRun) (t : PruneTurn) : r.held.Sublist (r.turn call t).held := by
  cases t with
  | insert event =>
    rw [turn]
    split
    · exact List.sublist_append_left _ _
    · exact List.Sublist.refl _
  | attempt fault =>
    obtain ⟨store, held, phase⟩ := r
    cases phase <;> cases fault <;> exact List.Sublist.refl _

theorem run_held (r : PruneRun) (turns : List PruneTurn) :
    r.held.Sublist (r.run call turns).held := by
  induction turns generalizing r with
  | nil => exact List.Sublist.refl _
  | cons t turns ih => exact (turn_held r t).trans (ih _)

theorem turn_attempt_held (r : PruneRun) (fault : Option Error) :
    (r.turn call (.attempt fault)).held = r.held := by
  obtain ⟨store, held, phase⟩ := r
  cases phase <;> cases fault <;> rfl

theorem turn_attempt_phase {r : PruneRun} {total attempt : ℕ}
    (h : r.phase = .running total attempt) :
    (r.turn call (.attempt none)).phase = afterBatch call total (call.deleteBatch r.store).1 := by
  obtain ⟨store, held, phase⟩ := r
  obtain rfl : phase = .running total attempt := h
  rfl

end PruneRun

def PruneTurn.isInsert : PruneTurn → Bool
  | insert _ => true
  | attempt _ => false

def inserts (turns : List PruneTurn) : ℕ := turns.countP PruneTurn.isInsert

def attempts (turns : List PruneTurn) : ℕ := turns.countP fun t => !t.isInsert

namespace PruneRun

variable {call : PruneCall} {s : Store} {r : PruneRun}

theorem run_held_length (call : PruneCall) (r : PruneRun) (turns : List PruneTurn) :
    (select Event.projectId call.projectId (r.run call turns).held).length ≤
      (select Event.projectId call.projectId r.held).length + inserts turns := by
  induction turns generalizing r with
  | nil => exact le_rfl
  | cons t turns ih =>
    refine (ih (r.turn call t)).trans ?_
    cases t with
    | attempt fault =>
      rw [turn_attempt_held]
      exact le_rfl
    | insert event =>
      have hone : (select Event.projectId call.projectId [event]).length ≤ 1 :=
        List.length_filter_le _ _
      have hinserts : inserts (.insert event :: turns) = inserts turns + 1 :=
        List.countP_cons_of_pos rfl
      rw [turn, hinserts]
      split
      · simp only [select_append, List.length_append]
        omega
      · omega

/-- While it runs, a sweep has made `made` attempts: at most so many for each full batch. -/
def Progress (call : PruneCall) (made : ℕ) (r : PruneRun) : Prop :=
  ∀ total attempt, r.phase = .running total attempt → attempt ≤ call.write.maxRetries ∧
    ∃ batches, total = batches * call.write.deleteBatch ∧
      made ≤ batches * (call.write.maxRetries + 1) + attempt

theorem Progress.attempt (h : r.Sound call s) {made : ℕ} (hp : r.Progress call made)
    (fault : Option Error) : (r.turn call (.attempt fault)).Progress call (made + 1) := by
  obtain ⟨store, held, phase⟩ := r
  intro total' attempt' hphase
  cases phase with
  | finished total => cases hphase
  | failed e => cases hphase
  | running total attempt =>
    obtain ⟨hattempt, batches, htotal, hmade⟩ := hp total attempt rfl
    cases fault with
    | some e =>
      simp only [turn, afterError] at hphase
      split_ifs at hphase
      cases hphase
      exact ⟨by omega, batches, htotal, by omega⟩
    | none =>
      simp only [turn, afterBatch] at hphase
      split_ifs at hphase with hshort
      cases hphase
      have hcount := PruneCall.deleteBatch_count call h.unique
      have hfull : (call.deleteBatch store).1 = call.write.deleteBatch := by
        simp only at hcount
        omega
      refine ⟨Nat.zero_le _, batches + 1, ?_, ?_⟩
      · rw [hfull, htotal, Nat.add_mul, one_mul]
      · rw [Nat.add_mul, one_mul]
        omega

theorem Progress.run (hB : call.backend.Ordered) (h : r.Sound call s) {made : ℕ}
    (hp : r.Progress call made) (turns : List PruneTurn) :
    (r.run call turns).Progress call (made + attempts turns) := by
  induction turns generalizing r made with
  | nil => exact hp
  | cons t turns ih =>
    have hnext := h.turn hB t
    cases t with
    | attempt fault =>
      have hattempts : attempts (.attempt fault :: turns) = attempts turns + 1 :=
        List.countP_cons_of_pos rfl
      have := ih hnext (hp.attempt h fault)
      rwa [Nat.add_assoc, Nat.add_comm 1, ← hattempts] at this
    | insert event =>
      refine ih hnext ?_
      rw [turn]
      split <;> exact hp

/-- A sweep that still runs has not made more attempts than its batches may need. -/
theorem attempts_lt (hB : call.backend.Ordered) (hid : UniqueOn Event.id s.events)
    (turns : List PruneTurn) {total attempt : ℕ}
    (hphase : ((start s).run call turns).phase = .running total attempt) :
    attempts turns < (call.write.maxRetries + 1) *
      (((select Event.projectId call.projectId s.events).length + inserts turns) /
        call.write.deleteBatch + 1) := by
  have hsound := (Sound.start call hid).run hB turns
  have hstart : (start s).Progress call 0 := by
    intro total attempt h
    cases h
    exact ⟨Nat.zero_le _, 0, (Nat.zero_mul _).symm, Nat.zero_le _⟩
  obtain ⟨hattempt, batches, htotal, hmade⟩ :=
    hstart.run hB (Sound.start call hid) turns total attempt hphase
  have hcounted := hsound.counted total (by rw [hphase]; rfl)
  have hheld := run_held_length call (start s) turns
  have hbatches : batches ≤ ((select Event.projectId call.projectId s.events).length +
      inserts turns) / call.write.deleteBatch := by
    rw [Nat.le_div_iff_mul_le call.write.deleteBatch_pos, ← htotal]
    exact (Nat.le_add_right _ _).trans (hcounted.le.trans hheld)
  calc attempts turns ≤ batches * (call.write.maxRetries + 1) + attempt := by omega
    _ < (batches + 1) * (call.write.maxRetries + 1) := by rw [Nat.add_mul]; omega
    _ ≤ _ := by
      rw [Nat.mul_comm]
      exact Nat.mul_le_mul_left _ (Nat.succ_le_succ hbatches)

/-- A finished sweep has left at most what it keeps. -/
def Settled (call : PruneCall) (r : PruneRun) : Prop :=
  ∀ total, r.phase = .finished total →
    (select Event.projectId call.projectId r.store.events).length ≤ call.keep

theorem Settled.attempt (hB : call.backend.Ordered) (h : r.Sound call s) (hr : r.Settled call)
    (fault : Option Error) : (r.turn call (.attempt fault)).Settled call := by
  obtain ⟨store, held, phase⟩ := r
  cases phase with
  | finished total => exact hr
  | failed e => exact hr
  | running total attempt =>
    intro total' hphase
    cases fault with
    | some e =>
      simp only [turn, afterError] at hphase
      split_ifs at hphase
    | none =>
      simp only [turn, afterBatch] at hphase ⊢
      split_ifs at hphase with hshort
      have hcount := PruneCall.deleteBatch_count call h.unique
      have hlength := PruneCall.deleteBatch_length hB h.unique
      simp only at hcount hlength
      omega

theorem run_attempts (hB : call.backend.Ordered) (h : r.Sound call s) (hr : r.Settled call)
    {turns : List PruneTurn} (hturns : inserts turns = 0) :
    (r.run call turns).held = r.held ∧ (r.run call turns).Settled call := by
  induction turns generalizing r with
  | nil => exact ⟨rfl, hr⟩
  | cons t turns ih =>
    cases t with
    | insert event =>
      have hinserts : inserts (.insert event :: turns) = inserts turns + 1 :=
        List.countP_cons_of_pos rfl
      omega
    | attempt fault =>
      obtain ⟨hheld, hsettled⟩ := ih (h.attempt hB fault) (hr.attempt hB h fault) hturns
      exact ⟨hheld.trans (turn_attempt_held r fault), hsettled⟩

/-- Rows that contain the newest ones, and no more than are kept, are the newest ones. -/
theorem length_and_mem_of_newest (hB : call.backend.Ordered) {rows events : List Event}
    (hid : UniqueOn Event.id events) (hrows : rows.Sublist events)
    (hnewest : ∀ e ∈ events, e.projectId = call.projectId → call.rank events e < call.keep →
      e ∈ rows)
    (hfew : (select Event.projectId call.projectId rows).length ≤ call.keep) :
    (select Event.projectId call.projectId rows).length =
        min call.keep (select Event.projectId call.projectId events).length ∧
      ∀ e ∈ rows, e.projectId = call.projectId → call.rank events e < call.keep := by
  have hselected : UniqueOn Event.id (select Event.projectId call.projectId events) := hid.filter _
  have htop (e : Event) :=
    hB.totalPreorder.mem_take_mergeSort_iff (hB.untied hselected) call.keep e
  have hlength : (((select Event.projectId call.projectId events).mergeSort
      (moreRecent call.backend)).take call.keep).length =
        min call.keep (select Event.projectId call.projectId events).length := by
    rw [List.length_take, List.length_mergeSort]
  have hunique : UniqueOn Event.id (((select Event.projectId call.projectId events).mergeSort
      (moreRecent call.backend)).take call.keep) :=
    (((List.mergeSort_perm _ _).map Event.id).nodup_iff.mpr hselected).sublist
      ((List.take_sublist _ _).map Event.id)
  generalize ((select Event.projectId call.projectId events).mergeSort
    (moreRecent call.backend)).take call.keep = top at htop hlength hunique
  have hsub : top.map Event.id ⊆ (select Event.projectId call.projectId rows).map Event.id := by
    refine List.map_subset _ fun e he => ?_
    obtain ⟨hselect, hrank⟩ := (htop e).mp he
    obtain ⟨hmem, hproject⟩ := mem_select.mp hselect
    exact mem_select.mpr ⟨hnewest e hmem hproject hrank, hproject⟩
  have hle := (List.subperm_of_subset hunique hsub).length_le
  have hge := (hrows.filter fun e => decide (e.projectId = call.projectId)).length_le
  rw [List.length_map, List.length_map] at hle
  have heq : (select Event.projectId call.projectId rows).length =
      min call.keep (select Event.projectId call.projectId events).length := by
    have : (select Event.projectId call.projectId rows).length ≤
      (select Event.projectId call.projectId events).length := hge
    omega
  refine ⟨heq, fun e he hproject => ?_⟩
  by_contra hlow
  have hmem := mem_select.mpr ⟨hrows.subset he, hproject⟩
  have hnot : e.id ∉ top.map Event.id := by
    intro htaken
    obtain ⟨d, hd, hkey⟩ := List.mem_map.mp htaken
    obtain rfl := hselected.eq_of_key ((htop d).mp hd).1 hmem hkey
    exact hlow ((htop d).mp hd).2
  have hmore : e.id :: top.map Event.id ⊆
      (select Event.projectId call.projectId rows).map Event.id := by
    refine List.cons_subset.mpr ⟨?_, hsub⟩
    exact List.mem_map_of_mem (mem_select.mpr ⟨he, hproject⟩)
  have hlonger := (List.subperm_of_subset (List.nodup_cons.mpr ⟨hnot, hunique⟩) hmore).length_le
  simp only [List.length_cons, List.length_map] at hlonger
  omega

end PruneRun

/-- Whatever is stored meanwhile, a sweep ends, and leaves the newest events: a rank counts those
received later. -/
theorem prune_keeps_newest (call : PruneCall)
    (hB : call.backend = sqlite ∨ call.backend = postgres) {s : Store}
    (hid : UniqueOn Event.id s.events) (turns : List PruneTurn) :
    let r := (PruneRun.start s).run call turns
    let rows := select Event.projectId call.projectId s.events
    (∀ total attempt, r.phase = .running total attempt → attempts turns <
      (call.write.maxRetries + 1) * ((rows.length + inserts turns) / call.write.deleteBatch + 1)) ∧
    (∀ earlier later, turns = earlier ++ later →
      ∀ e ∈ ((PruneRun.start s).run call earlier).held, e.projectId = call.projectId →
        call.rank r.held e < call.keep → e ∈ ((PruneRun.start s).run call earlier).store.events) ∧
    (inserts turns = 0 → ∀ total, r.phase = .finished total →
      (∀ e, e ∈ r.store.events ↔
        e ∈ s.events ∧ (e.projectId = call.projectId → call.rank s.events e < call.keep)) ∧
      (select Event.projectId call.projectId r.store.events).length = min call.keep rows.length ∧
      total + r.store.events.length = s.events.length) ∧
    remove Event.projectId call.projectId r.store.events =
      remove Event.projectId call.projectId r.held ∧
    r.store.issues = s.issues ∧
    ∀ events : List Event, (∀ d ∈ events, d.Dated call.backend) → ∀ e ∈ events,
      call.rank events e = (select Event.projectId call.projectId events).countP fun d =>
        e.receivedAt < d.receivedAt ∨ e.receivedAt = d.receivedAt ∧ e.id < d.id := by
  intro r rows
  have hordered : call.backend.Ordered := by
    rcases hB with h | h
    · exact h ▸ sqlite_ordered
    · exact h ▸ postgres_ordered
  have hsound := (PruneRun.Sound.start call hid).run hordered turns
  refine ⟨fun total attempt hphase => PruneRun.attempts_lt hordered hid turns hphase, ?_, ?_,
    hsound.others, hsound.issues, fun _ hdated _ he => PruneCall.rank_eq_countP hB hdated he⟩
  · rintro earlier later rfl e he hproject hrank
    have hearlier := (PruneRun.Sound.start call hid).run hordered earlier
    have hheld : ((PruneRun.start s).run call earlier).held.Sublist r.held := by
      have hsplit : r = ((PruneRun.start s).run call earlier).run call later := List.foldl_append
      rw [hsplit]
      exact PruneRun.run_held _ later
    exact hearlier.newest e he hproject ((PruneCall.rank_mono call hheld e).trans_lt hrank)
  · intro hinserts total hphase
    obtain ⟨hheld, hsettled⟩ := PruneRun.run_attempts hordered (PruneRun.Sound.start call hid)
      (r := PruneRun.start s) nofun hinserts
    have hcounted := hsound.counted total (by rw [hphase]; rfl)
    have hnewest := hsound.newest
    have hsublist := hsound.sublist
    have hothers := hsound.others
    rw [hheld] at hcounted hnewest hsublist hothers
    obtain ⟨hlength, hmem⟩ := PruneRun.length_and_mem_of_newest hordered hid hsublist hnewest
      (hsettled total hphase)
    refine ⟨fun e => ⟨fun he => ⟨hsublist.subset he, hmem e he⟩, ?_⟩, hlength, ?_⟩
    · rintro ⟨he, hrank⟩
      by_cases hproject : e.projectId = call.projectId
      · exact hnewest e he hproject (hrank hproject)
      · have : e ∈ remove Event.projectId call.projectId r.store.events :=
          hothers.symm ▸ mem_remove.mpr ⟨he, hproject⟩
        exact (mem_remove.mp this).1
    · have hbefore := PruneCall.select_length_add s.events call.projectId
      have hafter := PruneCall.select_length_add r.store.events call.projectId
      rw [hothers] at hafter
      change total + (select Event.projectId call.projectId r.store.events).length =
        (select Event.projectId call.projectId s.events).length at hcounted
      change _ + (remove Event.projectId call.projectId s.events).length = _ at hafter
      omega

def threeEvents : Store where
  projects := [⟨0, 2, 1, false⟩]
  issues := [{
    id := 9, shortId := "i9", projectId := 0, fingerprint := "f", title := "timeout"
    culprit := none, level := none, environment := none, release := none
    status := .unresolved, mutedAt := none, mutedUntil := none
    muteThreshold := none, muteWindowSeconds := none
    firstSeen := .atSecond 5, lastSeen := .atSecond 7, eventCount := 3
    createdAt := .atSecond 5, updatedAt := .atSecond 7 }]
  events := [⟨1, "a", 9, 0, .null, .atSecond 5⟩, ⟨2, "b", 9, 0, .null, .atSecond 7⟩,
    ⟨3, "c", 9, 0, .null, .atSecond 5⟩]
  nextId := 10

def keepOne : PruneCall := ⟨sqlite, ⟨1, 2, by decide⟩, 0, 1⟩

def fourthEvent : Event := ⟨4, "d", 9, 0, .null, .atSecond 8⟩

theorem threeEvents_firstBatch :
    let r := (PruneRun.start threeEvents).run keepOne [.attempt none]
    r.phase = .running 2 0 ∧
      r.turn keepOne (.insert fourthEvent) = { r with
        store := { r.store with events := r.store.events ++ [fourthEvent] }
        held := threeEvents.events ++ [fourthEvent] } := by
  have hid : UniqueOn Event.id threeEvents.events := by decide
  intro r
  have hsound : r.Sound keepOne threeEvents :=
    (PruneRun.Sound.start keepOne hid).run sqlite_ordered [.attempt none]
  constructor
  · change PruneRun.afterBatch keepOne 0 (keepOne.deleteBatch threeEvents).1 = _
    rw [PruneCall.deleteBatch_count keepOne hid]
    rfl
  · have hnew : ∀ e ∈ r.store.events, e.id ≠ fourthEvent.id := by
      intro e he
      have hthree : ∀ e ∈ threeEvents.events, e.id ≠ fourthEvent.id := by decide
      exact hthree e (hsound.sublist.subset he)
    apply if_pos
    simp only [Store.admits, Bool.and_eq_true, List.all_eq_true, decide_eq_true_eq]
    exact ⟨⟨hnew, rfl⟩, rfl⟩

/-- The event that is stored between two batches is the one that is kept. -/
theorem prune_keeps_newest_three :
    let r := (PruneRun.start threeEvents).run keepOne
      [.attempt none, .insert fourthEvent, .attempt none]
    r.phase = .finished 3 ∧ r.store.events = [fourthEvent] := by
  have hid : UniqueOn Event.id threeEvents.events := by decide
  obtain ⟨hfirst, hinsert⟩ := threeEvents_firstBatch
  intro r
  let r' := (PruneRun.start threeEvents).run keepOne [.attempt none, .insert fourthEvent]
  have hphase' : r'.phase = .running 2 0 := (congrArg PruneRun.phase hinsert).trans hfirst
  have hheld' : r'.held = threeEvents.events ++ [fourthEvent] := congrArg PruneRun.held hinsert
  have hheld : r.held = threeEvents.events ++ [fourthEvent] :=
    (PruneRun.turn_attempt_held r' none).trans hheld'
  -- the last statement finds one row past the one that is kept
  have hsound' : r'.Sound keepOne threeEvents :=
    (PruneRun.Sound.start keepOne hid).run sqlite_ordered [.attempt none, .insert fourthEvent]
  have htwo : (select Event.projectId 0 r'.store.events).length = 2 := by
    have hcounted := hsound'.counted 2 (by rw [hphase']; rfl)
    rw [hheld'] at hcounted
    exact @Nat.add_left_cancel 2 _ _ hcounted
  have hone : (keepOne.deleteBatch r'.store).1 = 1 := by
    have hcount := PruneCall.deleteBatch_count keepOne hsound'.unique
    change _ = min 2 ((select Event.projectId 0 r'.store.events).length - 1) at hcount
    rwa [htwo] at hcount
  have hphase : r.phase = .finished 3 := by
    have hturn : r.phase = PruneRun.afterBatch keepOne 2 (keepOne.deleteBatch r'.store).1 :=
      PruneRun.turn_attempt_phase hphase'
    rw [hturn, hone]
    rfl
  obtain ⟨-, hnewest, -, -, -, hrank⟩ := prune_keeps_newest keepOne (.inl rfl) hid
    [.attempt none, .insert fourthEvent, .attempt none]
  have hkept : fourthEvent ∈ r.store.events := by
    have hmem : fourthEvent ∈ r.held := by
      rw [hheld]
      exact List.mem_append_right _ (List.mem_singleton_self _)
    apply hnewest _ [] (List.append_nil _).symm fourthEvent hmem rfl
    have hdated : ∀ d ∈ threeEvents.events ++ [fourthEvent], d.receivedAt.FourDigitYear := by decide
    rw [hheld, hrank _ (fun d hd => ⟨hdated d hd, rfl⟩) fourthEvent (hheld ▸ hmem)]
    decide
  refine ⟨hphase, ?_⟩
  have hsound : r.Sound keepOne threeEvents := hsound'.turn sqlite_ordered (.attempt none)
  have hproject : ∀ e ∈ r.store.events, e.projectId = 0 := by
    intro e he
    have hall : ∀ e ∈ threeEvents.events ++ [fourthEvent], e.projectId = 0 := by decide
    exact hall e (hheld ▸ hsound.sublist.subset he)
  have hcounted := hsound.counted 3 (by rw [hphase]; rfl)
  rw [hheld] at hcounted
  have hlength : r.store.events.length = 1 := by
    have hselect : select Event.projectId 0 r.store.events = r.store.events :=
      List.filter_eq_self.mpr fun e he => decide_eq_true (hproject e he)
    rw [← hselect]
    exact @Nat.add_left_cancel 3 _ _ hcounted
  obtain ⟨e, hevents⟩ := List.length_eq_one_iff.mp hlength
  rw [hevents] at hkept ⊢
  rw [List.mem_singleton.mp hkept]

end Soika
