import Soika.Retention.Batches

/-! # A sweep alone

What a sweep leaves when nothing else goes on: of every project the newest events that its limit
allows and that are not too old. A sweep that fails on the way has only deleted others.
-/

namespace Soika

open Interaction Table

theorem exec_none {S : Signature} {α : Type} (m : Machine S Error Store) (p : Prog S Error α)
    (s : Store) : (m.exec p .none s).faults = .none := by
  induction p generalizing s with
  | ret a => rfl
  | fail e => rfl
  | abort => rfl
  | call c next ih => exact ih _ _

theorem exec_tail {S : Signature} {α : Type} {m : Machine S Error Store} {p : Prog S Error α}
    {s t : Store} {φ φ' : Faults Error} {o : Interaction.Outcome Error α}
    (hrun : m.exec p φ s = ⟨o, t, φ'⟩) (hne : φ' ≠ .none) : φ ≠ .none := by
  rintro rfl
  have hnone := exec_none m p s
  rw [hrun] at hnone
  exact hne hnone

namespace SweepHost

variable {H : SweepHost} {s : Store} {c : BatchCmd}

/-- A statement with its retries succeeds once, or it changes nothing after some fault. -/
theorem exec_retryBatch (H : SweepHost) (what : String) (c : BatchCmd) (retries : ℕ)
    (φ : Faults Error) (s : Store) : ∃ φ',
      H.sweeps.exec (retryBatch what c retries) φ s =
          ⟨.ok (H.batch c s).1, (H.batch c s).2, φ'⟩ ∨
        φ ≠ .none ∧ ∃ e, H.sweeps.exec (retryBatch what c retries) φ s = ⟨.err e, s, φ'⟩ := by
  have hfault : ∀ {φ : Faults Error} {e}, φ 0 = some e → φ ≠ .none := by
    rintro φ e h rfl
    cases h
  induction retries generalizing φ with
  | zero =>
    refine ⟨φ.tail, ?_⟩
    simp only [retryBatch, Prog.bind_eq, Prog.attempt, Prog.call_bind, Machine.exec_call]
    cases hφ : φ 0 with
    | some e => exact .inr ⟨hfault hφ, _, rfl⟩
    | none => exact .inl rfl
  | succ retries ih =>
    simp only [retryBatch, Prog.bind_eq, Prog.attempt, Prog.call_bind, Machine.exec_call]
    cases hφ : φ 0 with
    | none => exact ⟨φ.tail, .inl rfl⟩
    | some e =>
      rw [Machine.answer_some]
      cases hbusy : e.isBusy with
      | true =>
        simp only [Prog.ret_bind, hbusy, if_true]
        obtain ⟨φ', hok | ⟨-, herr⟩⟩ := ih φ.tail
        · exact ⟨φ', .inl hok⟩
        · exact ⟨φ', .inr ⟨hfault hφ, herr⟩⟩
      | false => exact ⟨φ.tail, .inr ⟨hfault hφ, e, by simp [hbusy]⟩⟩

/-- How a loop of statements ends, of which each keeps what is known of the store and of the rows
deleted so far: after a short batch, with an error, or with no fuel left. -/
theorem exec_deleteInBatches {I : ℕ → Store → Prop}
    (hstep : ∀ total s, I total s → I (total + (H.batch c s).1) (H.batch c s).2) (what : String)
    (fuel total : ℕ) (φ : Faults Error) (h : I total s) :
    (∃ n t φ', I n t ∧ (H.batch c t).1 < H.write.deleteBatch ∧
      H.sweeps.exec (H.deleteInBatches what c fuel total) φ s =
        ⟨.ok (n + (H.batch c t).1), (H.batch c t).2, φ'⟩) ∨
    (φ ≠ .none ∧ ∃ e n t φ', I n t ∧
      H.sweeps.exec (H.deleteInBatches what c fuel total) φ s = ⟨.err e, t, φ'⟩) ∨
    ∃ n t, I n t ∧ total + fuel ≤ n := by
  induction fuel generalizing total φ s with
  | zero => exact .inr (.inr ⟨total, s, h, le_rfl⟩)
  | succ fuel ih =>
    obtain ⟨φ', hok | ⟨hφ, e, herr⟩⟩ := H.exec_retryBatch what c H.write.maxRetries φ s
    · rw [deleteInBatches, Prog.bind_eq, Machine.exec_bind, hok]
      dsimp only
      split
      · rename_i hshort
        exact .inl ⟨total, s, φ', h, hshort, rfl⟩
      · rename_i hfull
        have hpos := H.write.deleteBatch_pos
        rcases ih (total + (H.batch c s).1) φ' (hstep total s h) with
          hends | ⟨hφ', herr⟩ | ⟨n, t, hn, hle⟩
        · exact .inl hends
        · exact .inr (.inl ⟨exec_tail hok hφ', herr⟩)
        · exact .inr (.inr ⟨n, t, hn, by omega⟩)
    · rw [deleteInBatches, Prog.bind_eq, Machine.exec_bind, herr]
      exact .inr (.inl ⟨hφ, e, total, s, φ', h, rfl⟩)

theorem exec_ask_bind {α : Type} (H : SweepHost) (c : StoreCmd)
    (f : c.Reply → Prog sweepCalls Error α) (φ : Faults Error) (s : Store) :
    H.sweeps.exec ((ask c).bind f) φ s =
      match φ 0, H.sharedStep c s with
      | some e, _ => ⟨.err e, s, φ.tail⟩
      | none, (.ok r, s') => H.sweeps.exec (f r) φ.tail s'
      | none, (.error e, s') => ⟨.err e, s', φ.tail⟩ := by
  cases hφ : φ 0 with
  | some e => exact H.sweeps.exec_ask_error (by rw [hφ, Machine.answer_some])
  | none =>
    rcases h : H.sharedStep c s with ⟨e | r, s'⟩
    · exact H.sweeps.exec_ask_error (by rw [hφ, Machine.answer_none]; exact h)
    · exact H.sweeps.exec_ask_ok (by rw [hφ, Machine.answer_none]; exact h)

end SweepHost

/-- Only doomed events are gone. -/
structure Swept (doomed : Event → Prop) (s t : Store) : Prop where
  store : t = { s with events := t.events }
  sublist : t.events.Sublist s.events
  spared : ∀ e ∈ s.events, ¬ doomed e → e ∈ t.events

/-- The run has deleted doomed events only, and all of them when it succeeds with their number. It
fails only after a fault. -/
structure Clears (doomed : Event → Prop) (s : Store) (φ : Faults Error) (r : Run Error Store ℕ) :
    Prop where
  swept : Swept doomed s r.state
  cleared : ∀ n, r.outcome = .ok n →
    (∀ e ∈ r.state.events, ¬ doomed e) ∧ n + r.state.events.length = s.events.length
  failed : ∀ e, r.outcome = .err e → φ ≠ .none

theorem Swept.refl (doomed : Event → Prop) (s : Store) : Swept doomed s s :=
  ⟨rfl, List.Sublist.refl _, fun _ he _ => he⟩

theorem Swept.trans {doomed doomed' : Event → Prop} {s t u : Store} (hs : Swept doomed s t)
    (ht : Swept doomed' t u) (hdoomed : ∀ e ∈ t.events, doomed' e → doomed e) :
    Swept doomed s u where
  store := by rw [ht.store, hs.store]
  sublist := ht.sublist.trans hs.sublist
  spared e he hnot := ht.spared e (hs.spared e he hnot) fun hd =>
    hnot (hdoomed e (hs.spared e he hnot) hd)

theorem Swept.mono {doomed doomed' : Event → Prop} {s t : Store} (h : Swept doomed s t)
    (hdoomed : ∀ e ∈ s.events, doomed e → doomed' e) : Swept doomed' s t where
  store := h.store
  sublist := h.sublist
  spared e he hnot := h.spared e he fun hd => hnot (hdoomed e he hd)

theorem Swept.projects {doomed : Event → Prop} {s t : Store} (h : Swept doomed s t) :
    t.projects = s.projects := by rw [h.store]

theorem Swept.unique {doomed : Event → Prop} {s t : Store} (h : Swept doomed s t)
    (hid : UniqueOn Event.id s.events) : UniqueOn Event.id t.events :=
  hid.sublist (h.sublist.map Event.id)

/-- A list without repetitions has no other sublist that holds all of it. -/
theorem eq_of_sublist_of_subset {l l' : List Event} (h : l.Sublist l')
    (hid : UniqueOn Event.id l') (hsub : l' ⊆ l) : l = l' :=
  h.eq_of_length_le (List.subperm_of_subset (List.Nodup.of_map _ hid) hsub).length_le

theorem Swept.select_eq {doomed : Event → Prop} {s t : Store} (h : Swept doomed s t)
    (hid : UniqueOn Event.id s.events) {projectId : Id}
    (hnone : ∀ e ∈ s.events, e.projectId = projectId → ¬ doomed e) :
    select Event.projectId projectId t.events = select Event.projectId projectId s.events := by
  apply eq_of_sublist_of_subset (h.sublist.filter _) (hid.filter _)
  intro e he
  obtain ⟨hmem, hproject⟩ := mem_select.mp he
  exact mem_select.mpr ⟨h.spared e hmem (hnone e hmem hproject), hproject⟩

theorem deleteIds_count {s : Store} (hid : UniqueOn Event.id s.events) {rows : List Event}
    (hrows : rows ⊆ s.events) (hnodup : UniqueOn Event.id rows) :
    (deleteIds (rows.map Event.id) s).1 = rows.length := by
  have hsame : ((s.events.filter fun e => (rows.map Event.id).contains e.id).map Event.id).Perm
      (rows.map Event.id) := by
    apply (List.perm_ext_iff_of_nodup (hid.filter _) hnodup).mpr
    intro id
    simp only [List.mem_map, List.mem_filter, List.contains_iff_mem]
    constructor
    · rintro ⟨e, ⟨-, he⟩, rfl⟩
      exact he
    · rintro ⟨e, he, rfl⟩
      exact ⟨e, ⟨hrows he, e, he, rfl⟩, rfl⟩
  rw [deleteIds, List.countP_eq_length_filter, ← List.length_map (f := Event.id), hsame.length_eq,
    List.length_map]

theorem deleteIds_length (doomed : List Id) (s : Store) :
    (deleteIds doomed s).1 + (deleteIds doomed s).2.events.length = s.events.length := by
  rw [s.events.length_eq_length_filter_add fun e => doomed.contains e.id,
    ← List.countP_eq_length_filter]
  rfl

section Endings

variable {doomed : Event → Prop} {Panics : Prop} {s t : Store} {φ φ' : Faults Error}
  (hswept : Swept doomed s t)
include hswept

theorem clears_ok {n : ℕ} (hgone : ∀ e ∈ t.events, ¬ doomed e)
    (hcount : n + t.events.length = s.events.length) :
    let r : Run Error Store ℕ := ⟨.ok n, t, φ'⟩
    Clears doomed s φ r ∧ (r.outcome = .panic → Panics) := by
  constructor
  · constructor
    · exact hswept
    · rintro _ ⟨⟩
      exact ⟨hgone, hcount⟩
    · intro e h
      cases h
  · intro h
    cases h

theorem clears_err {e : Error} (hφ : φ ≠ .none) :
    let r : Run Error Store ℕ := ⟨.err e, t, φ'⟩
    Clears doomed s φ r ∧ (r.outcome = .panic → Panics) := by
  constructor
  · constructor
    · exact hswept
    · intro n h
      cases h
    · exact fun _ _ => hφ
  · intro h
    cases h

theorem clears_panic (hpanics : Panics) :
    let r : Run Error Store ℕ := ⟨.panic, t, φ'⟩
    Clears doomed s φ r ∧ (r.outcome = .panic → Panics) := by
  constructor
  · constructor
    · exact hswept
    · intro n h
      cases h
    · intro e h
      cases h
  · exact fun _ => hpanics

end Endings

theorem Clears.congr {doomed doomed' : Event → Prop} {s : Store} {φ : Faults Error}
    {r : Run Error Store ℕ} (h : Clears doomed s φ r)
    (hdoomed : ∀ e ∈ s.events, doomed e ↔ doomed' e) : Clears doomed' s φ r where
  swept := h.swept.mono fun e he hd => (hdoomed e he).mp hd
  cleared n hn := by
    obtain ⟨hgone, hcount⟩ := h.cleared n hn
    refine ⟨?_, hcount⟩
    intro e he hd
    exact hgone e he ((hdoomed e (h.swept.sublist.subset he)).mpr hd)
  failed := h.failed

theorem clears_both {S : Signature} {m : Machine S Error Store} {p q : Prog S Error ℕ}
    {first second doomed : Event → Prop} {Panics : Prop} {s : Store} {φ : Faults Error}
    (hp : Clears first s φ (m.exec p φ s) ∧ ((m.exec p φ s).outcome = .panic → Panics))
    (hq : ∀ t φ', Swept first s t →
      Clears second t φ' (m.exec q φ' t) ∧ ((m.exec q φ' t).outcome = .panic → Panics))
    (hdoomed : ∀ e ∈ s.events, first e ∨ second e ↔ doomed e) :
    let r := m.exec (p.bind fun n => q.bind fun k => .ret (n + k)) φ s
    Clears doomed s φ r ∧ (r.outcome = .panic → Panics) := by
  intro r
  generalize hr : r = r'
  dsimp only [r] at hr
  rw [Machine.exec_bind] at hr
  obtain ⟨hclears, hpanic⟩ := hp
  have hswept := hclears.swept.mono fun e he hfirst => (hdoomed e he).mp (.inl hfirst)
  rcases hrun : m.exec p φ s with ⟨o, t, φ'⟩
  rw [hrun] at hclears hpanic hswept hr
  cases o with
  | err e =>
    subst hr
    exact clears_err hswept (hclears.failed e rfl)
  | panic =>
    subst hr
    exact clears_panic hswept (hpanic rfl)
  | ok n =>
    obtain ⟨hgone, hcount⟩ := hclears.cleared n rfl
    obtain ⟨hrest, hpanic'⟩ := hq t φ' hclears.swept
    dsimp only at hr
    rw [Machine.exec_bind] at hr
    rcases hrun' : m.exec q φ' t with ⟨o', u, φ''⟩
    rw [hrun'] at hrest hpanic' hr
    have hswept' : Swept doomed s u := by
      apply hswept.trans hrest.swept
      intro e he hsecond
      exact (hdoomed e (hswept.sublist.subset he)).mp (.inr hsecond)
    cases o' with
    | err e =>
      subst hr
      exact clears_err hswept' (exec_tail hrun (hrest.failed e rfl))
    | panic =>
      subst hr
      exact clears_panic hswept' (hpanic' rfl)
    | ok k =>
      obtain ⟨hgone', hcount'⟩ := hrest.cleared k rfl
      subst hr
      apply clears_ok hswept'
      · intro e he hd
        rcases (hdoomed e (hswept'.sublist.subset he)).mpr hd with hfirst | hsecond
        · exact hgone e (hrest.swept.sublist.subset he) hfirst
        · exact hgone' e he hsecond
      · dsimp only at hcount hcount' ⊢
        omega

namespace SweepHost

variable {H : SweepHost} {c : BatchCmd} {s : Store} {doomed : Event → Prop}

/-- What a loop of statements deletes, when each of them deletes doomed events only and a short
batch has left none of them. -/
theorem clears_deleteInBatches {I : ℕ → Store → Prop}
    (hstep : ∀ n t, I n t → I (n + (H.batch c t).1) (H.batch c t).2)
    (hswept : ∀ n t, I n t → Swept doomed s t ∧ n + t.events.length = s.events.length)
    (hshort : ∀ n t, I n t → (H.batch c t).1 < H.write.deleteBatch →
      ∀ e ∈ (H.batch c t).2.events, ¬ doomed e)
    (h : I 0 s) {fuel : ℕ} (hfuel : s.events.length < fuel) (what : String) (φ : Faults Error) :
    Clears doomed s φ (H.sweeps.exec (H.deleteInBatches what c fuel 0) φ s) ∧
      (H.sweeps.exec (H.deleteInBatches what c fuel 0) φ s).outcome ≠ .panic := by
  rcases exec_deleteInBatches hstep what fuel 0 φ h with
    ⟨n, t, φ', hI, hlast, hr⟩ | ⟨hφ, e, n, t, φ', hI, hr⟩ | ⟨n, t, hI, hle⟩
  · obtain ⟨hclear, hcount⟩ := hswept _ _ (hstep n t hI)
    rw [hr]
    exact clears_ok hclear (hshort n t hI hlast) hcount
  · rw [hr]
    exact clears_err (hswept n t hI).1 hφ
  · have hcount := (hswept n t hI).2
    omega

theorem batch_length (c : BatchCmd) (s : Store) :
    (H.batch c s).1 + (H.batch c s).2.events.length = s.events.length :=
  deleteIds_length _ s

theorem clears_ask_bind {c : StoreCmd} {a : c.Reply} {f : c.Reply → Prog sweepCalls Error ℕ}
    {Panics : Prop} (hread : H.sharedStep c s = (.ok a, s))
    (hf : ∀ φ, Clears doomed s φ (H.sweeps.exec (f a) φ s) ∧
      ((H.sweeps.exec (f a) φ s).outcome = .panic → Panics)) (φ : Faults Error) :
    let r := H.sweeps.exec ((ask c).bind f) φ s
    Clears doomed s φ r ∧ (r.outcome = .panic → Panics) := by
  intro r
  have hr : r = _ := exec_ask_bind H c f φ s
  rw [hread] at hr
  cases hφ : φ 0 with
  | some e =>
    rw [hφ] at hr
    rw [hr]
    apply clears_err (.refl _ s)
    rintro rfl
    cases hφ
  | none =>
    rw [hφ] at hr
    rw [hr]
    obtain ⟨hclears, hpanic⟩ := hf φ.tail
    refine ⟨⟨hclears.swept, hclears.cleared, ?_⟩, hpanic⟩
    rintro e he rfl
    exact hclears.failed e he rfl

end SweepHost

def PruneCall.Over (call : PruneCall) (events : List Event) (e : Event) : Prop :=
  e.projectId = call.projectId ∧ call.keep ≤ call.rank events e

theorem PruneRun.Sound.swept {call : PruneCall} {s t : Store} {phase : PrunePhase}
    (h : (⟨t, s.events, phase⟩ : PruneRun).Sound call s)
    (hstore : t = { s with events := t.events }) :
    Swept (call.Over s.events) s t := by
  refine ⟨hstore, h.sublist, fun e he hnot => ?_⟩
  by_cases hproject : e.projectId = call.projectId
  · exact h.newest e he hproject (not_le.mp fun hle => hnot ⟨hproject, hle⟩)
  · have : e ∈ remove Event.projectId call.projectId t.events :=
      h.others.symm ▸ mem_remove.mpr ⟨he, hproject⟩
    exact (mem_remove.mp this).1

namespace SweepHost

variable {H : SweepHost} {s : Store} (hid : UniqueOn Event.id s.events) {fuel : ℕ}
  (hfuel : s.events.length < fuel) (what : String) (projectId : Id) (φ : Faults Error)
include hid hfuel

theorem exec_prune (keep : ℤ) :
    let r := H.sweeps.exec (H.deleteInBatches what (.prune projectId keep) fuel 0) φ s
    Clears ((H.pruneCall projectId keep).Over s.events) s φ r ∧ r.outcome ≠ .panic := by
  let call := H.pruneCall projectId keep
  let c : BatchCmd := .prune projectId keep
  let I (n : ℕ) (t : Store) : Prop := t = { s with events := t.events } ∧
    (⟨t, s.events, .running n 0⟩ : PruneRun).Sound call s ∧ n + t.events.length = s.events.length
  have hstep : ∀ n t, I n t → I (n + (H.batch c t).1) (H.batch c t).2 := by
    rintro n t ⟨hstore, hsound, hcount⟩
    have hnext := hsound.attempt H.ordered none
    have hlength := H.batch_length c t
    refine ⟨by rw [hstore]; rfl, { hnext with counted := ?_ }, by omega⟩
    rintro _ ⟨⟩
    apply hnext.counted
    change (PruneRun.afterBatch call n (call.deleteBatch t).1).total = _
    unfold PruneRun.afterBatch
    split <;> rfl
  have hstart : I 0 s := ⟨rfl, PruneRun.Sound.start call hid, Nat.zero_add _⟩
  apply clears_deleteInBatches hstep ?_ ?_ hstart hfuel
  · rintro n t ⟨hstore, hsound, hcount⟩
    exact ⟨hsound.swept hstore, hcount⟩
  · rintro n t hI hshort e he ⟨hproject, hover⟩
    obtain ⟨-, hlast, -⟩ := hstep n t hI
    have hunique := hI.2.1.unique
    have hcount := PruneCall.deleteBatch_count call hunique
    have hlength := @PruneCall.deleteBatch_length call _ H.ordered hunique
    have hfew : (select Event.projectId call.projectId (call.deleteBatch t).2.events).length ≤
        call.keep := by
      change (call.deleteBatch t).1 < call.write.deleteBatch at hshort
      dsimp only at hcount hlength
      omega
    have hnewest := (PruneRun.length_and_mem_of_newest H.ordered hid hlast.sublist hlast.newest
      hfew).2
    exact absurd (hnewest e he hproject) (not_lt.mpr hover)

theorem exec_older (cutoff : Timestamp) :
    let r := H.sweeps.exec (H.deleteInBatches what (.older projectId cutoff) fuel 0) φ s
    Clears (fun e => H.backend.older projectId cutoff e = true) s φ r ∧ r.outcome ≠ .panic := by
  let c : BatchCmd := .older projectId cutoff
  let I (n : ℕ) (t : Store) : Prop :=
    Swept (fun e => H.backend.older projectId cutoff e = true) s t ∧
      n + t.events.length = s.events.length
  -- the rows that a statement finds, of which it takes the first
  let found (t : Store) := H.arrange (t.events.filter (H.backend.older projectId cutoff))
  have hfound : ∀ t e, e ∈ found t ↔ e ∈ t.events ∧ H.backend.older projectId cutoff e = true :=
    fun t e => (H.arrange_perm _).mem_iff.trans List.mem_filter
  have hrest : ∀ t e, e ∈ (H.batch c t).2.events ↔ e ∈ t.events ∧ e.id ∉ H.doomed t c := by
    intro t e
    simp only [batch, deleteIds, List.mem_filter, Bool.not_eq_true', List.contains_eq_mem,
      decide_eq_false_iff_not]
  have hstart : I 0 s := ⟨.refl _ s, Nat.zero_add _⟩
  apply clears_deleteInBatches (c := c) (I := I) ?_ (fun _ _ h => h) ?_ hstart hfuel
  · rintro n t ⟨hswept, hcount⟩
    have hlength := H.batch_length c t
    refine ⟨hswept.trans ⟨rfl, List.filter_sublist, fun e he hnot => ?_⟩ fun _ _ hd => hd,
      by omega⟩
    apply (hrest t e).mpr ⟨he, _⟩
    intro hdoomed
    obtain ⟨d, hd, hkey⟩ := List.mem_map.mp hdoomed
    obtain ⟨hmem, hold⟩ := (hfound t d).mp (List.mem_of_mem_take hd)
    obtain rfl := (hswept.unique hid).eq_of_key hmem he hkey
    exact hnot hold
  · rintro n t ⟨hswept, -⟩ hshort e he hold
    obtain ⟨hmem, hnot⟩ := (hrest t e).mp he
    have hunique := hswept.unique hid
    have htaken : ((found t).take H.write.deleteBatch).length = (H.batch c t).1 := by
      symm
      apply deleteIds_count hunique
      · exact fun d hd => ((hfound t d).mp (List.mem_of_mem_take hd)).1
      · have hperm : ((found t).map Event.id).Perm _ := (H.arrange_perm _).map Event.id
        have hnodup : UniqueOn Event.id (found t) := hperm.nodup_iff.mpr (hunique.filter _)
        exact hnodup.sublist ((List.take_sublist _ _).map Event.id)
    have hall : (found t).take H.write.deleteBatch = found t := by
      apply List.take_of_length_le
      rw [List.length_take] at htaken
      omega
    apply hnot
    change e.id ∈ ((found t).take H.write.deleteBatch).map Event.id
    rw [hall]
    exact List.mem_map_of_mem ((hfound t e).mpr ⟨hmem, hold⟩)

end SweepHost

namespace SweepHost

variable (H : SweepHost) (config : Config) (clock : Id → Timestamp)

/-- The event is older than the age limit, which a sweep applies to a project, allows. -/
def Aged (project : Option Project) (e : Event) : Prop :=
  0 < config.daysOf project ∧ ∃ cutoff,
    retentionCutoff (config.daysOf project) (clock e.projectId) = some cutoff ∧
      H.backend.older e.projectId cutoff e = true

/-- What a sweep deletes: the events past the limit of their project, and those past its age. -/
def Expired (s : Store) (e : Event) : Prop :=
  (H.pruneCall e.projectId (config.limitOf (s.projectById e.projectId))).Over s.events e ∨
    H.Aged config clock (s.projectById e.projectId) e

/-- Where a sweep panics: a project has an age limit whose cutoff is no instant. -/
def Overflows (s : Store) (projectId : Id) : Prop :=
  0 < config.daysOf (s.projectById projectId) ∧
    retentionCutoff (config.daysOf (s.projectById projectId)) (clock projectId) = none

variable {H config clock} {s t : Store} {e : Event}

theorem Expired.mono (h : H.Expired config clock t e) (hprojects : t.projects = s.projects)
    (hevents : t.events.Sublist s.events) : H.Expired config clock s e := by
  unfold Expired Store.projectById at h ⊢
  rw [← hprojects]
  rcases h with ⟨hproject, hover⟩ | haged
  · exact .inl ⟨hproject, hover.trans (PruneCall.rank_mono _ hevents e)⟩
  · exact .inr haged

theorem expired_congr (hprojects : t.projects = s.projects)
    (hevents : select Event.projectId e.projectId t.events =
      select Event.projectId e.projectId s.events) :
    H.Expired config clock t e ↔ H.Expired config clock s e := by
  unfold Expired PruneCall.Over PruneCall.rank Store.projectById
  rw [hprojects]
  change _ ∧ _ ≤ Ranking.rank _ (select Event.projectId e.projectId t.events) e ∨ _ ↔
    _ ∧ _ ≤ Ranking.rank _ (select Event.projectId e.projectId s.events) e ∨ _
  rw [hevents]

variable {fuel : ℕ} (config clock)

def byAge (H : SweepHost) (fuel : ℕ) (projectId : Id) (project : Option Project) :
    Prog sweepCalls Error ℕ :=
  if config.daysOf project > 0 then
    (Prog.orAbort (retentionCutoff (config.daysOf project) (clock projectId))).bind
      ((H.batchedEvents fuel).deleteOlderThan projectId)
  else .ret 0

theorem sweepProject_eq (H : SweepHost) (fuel : ℕ) (projectId : Id) :
    sweepProject sweptProjects (H.batchedEvents fuel) config clock projectId =
      (ask (.findProject projectId)).bind fun project =>
        ((H.batchedEvents fuel).pruneEventsOverRetention projectId (config.limitOf project)).bind
          fun n => (byAge config clock H fuel projectId project).bind fun k => .ret (n + k) := by
  unfold sweepProject
  apply congrArg
  funext project
  apply congrArg
  funext n
  unfold byAge
  dsimp only
  split
  · rw [Prog.bind_assoc]
    rfl
  · rfl

section

variable (hid : UniqueOn Event.id s.events) (hfuel : s.events.length < fuel) (projectId : Id)
include hid hfuel

theorem exec_byAge (project : Option Project) (φ : Faults Error) :
    let r := H.sweeps.exec (byAge config clock H fuel projectId project) φ s
    Clears (fun e => e.projectId = projectId ∧ H.Aged config clock project e) s φ r ∧
      (r.outcome = .panic → 0 < config.daysOf project ∧
        retentionCutoff (config.daysOf project) (clock projectId) = none) := by
  unfold byAge
  by_cases hdays : config.daysOf project > 0
  · rw [if_pos hdays]
    cases hcutoff : retentionCutoff (config.daysOf project) (clock projectId) with
    | none => exact clears_panic (.refl _ s) ⟨hdays, rfl⟩
    | some cutoff =>
      obtain ⟨hclears, hpanic⟩ := exec_older (H := H) hid hfuel "delete events older than cutoff"
        projectId φ cutoff
      refine ⟨hclears.congr ?_, fun h => absurd h hpanic⟩
      intro e _
      constructor
      · intro hold
        obtain rfl : e.projectId = projectId := of_decide_eq_true (Bool.and_eq_true_iff.mp hold).1
        exact ⟨rfl, hdays, cutoff, hcutoff, hold⟩
      · rintro ⟨rfl, -, cutoff', hcutoff', hold⟩
        obtain rfl := Option.some.inj (hcutoff.symm.trans hcutoff')
        exact hold
  · rw [if_neg hdays]
    exact clears_ok (.refl _ s) (fun e _ haged => hdays haged.2.1) (Nat.zero_add _)

theorem exec_sweepProject (φ : Faults Error) :
    let r := H.sweeps.exec
      (sweepProject sweptProjects (H.batchedEvents fuel) config clock projectId) φ s
    Clears (fun e => e.projectId = projectId ∧ H.Expired config clock s e) s φ r ∧
      (r.outcome = .panic → Overflows config clock s projectId) := by
  rw [sweepProject_eq]
  apply clears_ask_bind rfl
  intro φ'
  obtain ⟨hclears, hpanic⟩ := exec_prune (H := H) hid hfuel "prune events over retention"
    projectId φ' (config.limitOf (s.projectById projectId))
  apply clears_both ⟨hclears, fun h => absurd h hpanic⟩
  · intro t φ'' hswept
    have hshorter : t.events.length < fuel := hswept.sublist.length_le.trans_lt hfuel
    exact exec_byAge config clock (hswept.unique hid) hshorter projectId _ φ''
  · intro e _
    constructor
    · rintro (⟨rfl, hrank⟩ | ⟨rfl, haged⟩)
      · exact ⟨rfl, .inl ⟨rfl, hrank⟩⟩
      · exact ⟨rfl, .inr haged⟩
    · rintro ⟨rfl, hover | haged⟩
      · exact .inl hover
      · exact .inr ⟨rfl, haged⟩

end

/-- The deletions of some projects, in a store where their events are still those of `s`. -/
theorem exec_sweepProjects (hid : UniqueOn Event.id s.events) (hfuel : s.events.length < fuel)
    {ids : List Id} (hnodup : ids.Nodup) (hsub : t.events.Sublist s.events)
    (hprojects : t.projects = s.projects)
    (hsame : ∀ id ∈ ids, select Event.projectId id t.events = select Event.projectId id s.events)
    (φ : Faults Error) :
    let r := H.sweeps.exec (sweepProjects sweptProjects (H.batchedEvents fuel) config clock ids) φ t
    Clears (fun e => e.projectId ∈ ids ∧ H.Expired config clock s e) t φ r ∧
      (r.outcome = .panic → ∃ id ∈ ids, Overflows config clock s id) := by
  induction ids generalizing t φ with
  | nil =>
    exact clears_ok (.refl _ t) (fun e _ he => List.not_mem_nil he.1) (Nat.zero_add _)
  | cons id ids ih =>
    obtain ⟨hnotin, hnodup⟩ := List.nodup_cons.mp hnodup
    obtain ⟨hsameId, hsame⟩ := List.forall_mem_cons.mp hsame
    have hidt : UniqueOn Event.id t.events := hid.sublist (hsub.map Event.id)
    have hfuelt : t.events.length < fuel := hsub.length_le.trans_lt hfuel
    obtain ⟨hclears, hpanic⟩ := exec_sweepProject (H := H) config clock hidt hfuelt id φ
    have hoverflows : Overflows config clock t id → Overflows config clock s id := by
      unfold Overflows Store.projectById
      rw [hprojects]
      exact fun h => h
    apply clears_both ⟨hclears, fun h => ⟨id, List.mem_cons_self, hoverflows (hpanic h)⟩⟩
    · intro u φ' hswept
      have hsame' : ∀ id' ∈ ids,
          select Event.projectId id' u.events = select Event.projectId id' s.events := by
        intro id' hid'
        refine (hswept.select_eq hidt ?_).trans (hsame id' hid')
        rintro e - hproject ⟨hproject', -⟩
        exact hnotin (hproject'.symm.trans hproject ▸ hid')
      obtain ⟨hrest, hpanic'⟩ := ih hnodup (hswept.sublist.trans hsub)
        (hswept.projects.trans hprojects) hsame' φ'
      refine ⟨hrest, fun h => ?_⟩
      obtain ⟨id', hmem, hover⟩ := hpanic' h
      exact ⟨id', List.mem_cons_of_mem _ hmem, hover⟩
    · intro e _
      rw [List.mem_cons, or_and_right]
      apply or_congr_left
      apply and_congr_right
      rintro rfl
      exact expired_congr hprojects hsameId

/-- A sweep alone on the store deletes the expired events of the projects that have some. -/
theorem exec_runRetention (hid : UniqueOn Event.id s.events) (hfuel : s.events.length < fuel)
    (φ : Faults Error) :
    let r := H.sweeps.exec (H.runRetention fuel config clock) φ s
    Clears (H.Expired config clock s) s φ r ∧
      (r.outcome = .panic → ∃ e ∈ s.events, Overflows config clock s e.projectId) := by
  apply clears_ask_bind (c := .projectIdsWithEvents) rfl
  intro φ'
  have hperm := H.arrangeIds_perm (projectIdsWithEvents s)
  have hmem : ∀ id, id ∈ H.arrangeIds (projectIdsWithEvents s) ↔ id ∈ s.events.map Event.projectId :=
    fun id => hperm.mem_iff.trans List.mem_dedup
  have hnodup : (H.arrangeIds (projectIdsWithEvents s)).Nodup :=
    hperm.nodup_iff.mpr (List.nodup_dedup _)
  obtain ⟨hclears, hpanic⟩ := exec_sweepProjects (H := H) config clock hid hfuel hnodup
    (List.Sublist.refl _) rfl (fun _ _ => rfl) φ'
  constructor
  · apply hclears.congr
    intro e he
    exact and_iff_right ((hmem _).mpr (List.mem_map_of_mem he))
  · intro h
    obtain ⟨id, hid, hover⟩ := hpanic h
    obtain ⟨e, he, rfl⟩ := List.mem_map.mp ((hmem id).mp hid)
    exact ⟨e, he, hover⟩

/-- A sweep that nothing interferes with leaves of each project the events within its limit and its
age, and another one with the same readings of the clock deletes none. A sweep that fails has
deleted no other events. -/
theorem runRetention_exact (H : SweepHost) (config : Config) (clock : Id → Timestamp) (fuel : ℕ)
    {s : Store} (hid : UniqueOn Event.id s.events) (hfuel : s.events.length < fuel)
    (φ : Faults Error) :
    let r := H.sweeps.exec (H.runRetention fuel config clock) φ s
    r.state = { s with events := r.state.events } ∧ r.state.events.Sublist s.events ∧
      (∀ e ∈ s.events, ¬ H.Expired config clock s e → e ∈ r.state.events) ∧
      (∀ n, r.outcome = .ok n →
        (∀ e ∈ r.state.events, ¬ H.Expired config clock s e) ∧
          n + r.state.events.length = s.events.length ∧
          ∀ φ', (H.sweeps.exec (H.runRetention fuel config clock) φ' r.state).state = r.state) ∧
      (∀ e, r.outcome = .err e → φ ≠ .none) ∧
      (r.outcome = .panic → ∃ e ∈ s.events, Overflows config clock s e.projectId) := by
  intro r
  obtain ⟨hclears, hpanic⟩ := exec_runRetention (H := H) config clock hid hfuel φ
  refine ⟨hclears.swept.store, hclears.swept.sublist, hclears.swept.spared, ?_, hclears.failed,
    hpanic⟩
  intro n hn
  obtain ⟨hgone, hcount⟩ := hclears.cleared n hn
  refine ⟨hgone, hcount, fun φ' => ?_⟩
  have hunique := hclears.swept.unique hid
  have hshorter := hclears.swept.sublist.length_le.trans_lt hfuel
  obtain ⟨⟨hswept, -, -⟩, -⟩ := exec_runRetention (H := H) config clock hunique hshorter φ'
  have hkept : r.state.events ⊆
      (H.sweeps.exec (H.runRetention fuel config clock) φ' r.state).state.events := by
    intro e he
    apply hswept.spared e he
    intro hexp
    exact hgone e he (hexp.mono hclears.swept.projects hclears.swept.sublist)
  rw [hswept.store, eq_of_sublist_of_subset hswept.sublist hunique hkept]

end SweepHost

/-- SQLite, which deletes two rows with a statement and finds them as they were stored. -/
def SweepHost.small : SweepHost :=
  { sqliteDatabase with
    ordered := sqlite_ordered
    write := ⟨1, 2, Nat.two_pos⟩
    arrange := id
    arrange_perm := .refl
    arrangeIds := id
    arrangeIds_perm := .refl }

def nextDay : Id → Timestamp := fun _ => .atSecond 86406

/-- Of the three events, the first is past the limit of the project, and the third past its age. -/
theorem runRetention_exact_three :
    let r := SweepHost.small.sweeps.exec
      (SweepHost.small.runRetention 4 ⟨100, 0, fun _ => true⟩ nextDay) .none threeEvents
    (∃ n, r.outcome = .ok n) ∧ ∀ e, e ∈ r.state.events ↔ e ∈ threeEvents.events ∧ e.id = 2 := by
  let config : Config := ⟨100, 0, fun _ => true⟩
  intro r
  have hid : UniqueOn Event.id threeEvents.events := by decide
  obtain ⟨-, hsub, hspared, hcleared, herr, hpanic⟩ :=
    SweepHost.runRetention_exact SweepHost.small config nextDay 4 hid (by decide) .none
  have hcutoff : retentionCutoff 1 (.atSecond 86406) = some (.atSecond 6) := by decide
  have hok : ∃ n, r.outcome = .ok n := by
    cases hout : r.outcome with
    | ok n => exact ⟨n, rfl⟩
    | err e => exact absurd rfl (herr e hout)
    | panic =>
      obtain ⟨e, he, -, hnone⟩ := hpanic hout
      have hproject : ∀ e ∈ threeEvents.events, e.projectId = 0 := by decide
      rw [hproject e he] at hnone
      exact absurd (hcutoff.symm.trans hnone) (Option.some_ne_none _)
  refine ⟨hok, ?_⟩
  have hold : ∀ e ∈ threeEvents.events, e.id ≠ 2 →
      0 < config.daysOf (threeEvents.projectById e.projectId) ∧
        retentionCutoff (config.daysOf (threeEvents.projectById e.projectId)) (nextDay e.projectId) =
          some (.atSecond 6) ∧
        sqlite.older e.projectId (.atSecond 6) e = true := by
    decide
  have hnew : ∀ e ∈ threeEvents.events, e.id = 2 →
      (SweepHost.small.pruneCall e.projectId
        (config.limitOf (threeEvents.projectById e.projectId))).rank threeEvents.events e = 0 ∧
        retentionCutoff (config.daysOf (threeEvents.projectById e.projectId)) (nextDay e.projectId) =
          some (.atSecond 6) ∧
        sqlite.older e.projectId (.atSecond 6) e = false := by
    decide
  intro e
  constructor
  · intro he
    obtain ⟨n, hn⟩ := hok
    refine ⟨hsub.subset he, ?_⟩
    by_contra hid
    obtain ⟨hdays, hcutoff, haged⟩ := hold e (hsub.subset he) hid
    exact (hcleared n hn).1 e he (.inr ⟨hdays, _, hcutoff, haged⟩)
  · rintro ⟨he, hid⟩
    obtain ⟨hrank, hcutoff, hyoung⟩ := hnew e he hid
    apply hspared e he
    rintro (⟨-, hover⟩ | ⟨-, cutoff, hsome, haged⟩)
    · rw [hrank] at hover
      have hkeep : ∀ e ∈ threeEvents.events, 0 < (SweepHost.small.pruneCall e.projectId
          (config.limitOf (threeEvents.projectById e.projectId))).keep := by decide
      exact absurd hover (not_le.mpr (hkeep e he))
    · obtain rfl := Option.some.inj (hcutoff.symm.trans hsome)
      exact absurd (hyoung.symm.trans haged) Bool.false_ne_true

end Soika
