import Soika.Library.Protocol

/-! # Histories

The history of a thread is the record of what it has done. A program on its way still obeys
its protocol; a pool has one set of events, to which each turn adds at most one; and a run
whose turns all meet a condition keeps what each turn that meets it keeps.
-/

namespace Interaction

variable {S : Signature} {ε σ τ α : Type}

def Answered (h : List (Transition S ε σ)) (c : S.Cmd) (r : S.Reply c) : Prop :=
  ∃ before after, ⟨before, c, .ok r, after⟩ ∈ h

def Protocol.recording (may : List (Transition S ε σ) → S.Cmd → Prop) :
    Protocol S ε σ (List (Transition S ε σ)) where
  may := may
  next h e := h ++ [e]

variable {m : Machine S ε σ} {P : Protocol S ε σ τ} {Q : τ → Outcome ε α → Prop} {t : τ}

@[simp] theorem Protocol.after_recording {may : List (Transition S ε σ) → S.Cmd → Prop}
    (h₀ h : List (Transition S ε σ)) : (recording may).after h₀ h = h₀ ++ h := by
  induction h generalizing h₀ with
  | nil => rw [after_nil, List.append_nil]
  | cons e h ih =>
    rw [List.append_cons]
    exact ih (h₀ ++ [e])

theorem Prog.Obeys.path {p q : Prog S ε α} {h : List (Transition S ε σ)} (hp : p.Obeys m P Q t)
    (hpath : p.Path h q) (hsound : ∀ e ∈ h, e.Sound m) : q.Obeys m P Q (P.after t h) := by
  induction hpath generalizing t with
  | nil p => exact hp
  | @cons c next r before after h q _ ih =>
    obtain ⟨⟨fault, hanswer⟩, hrest⟩ := List.forall_mem_cons.mp hsound
    have hnext := hp.2 fault before
    rw [Machine.transition, hanswer] at hnext
    exact ih hnext hrest

/-- Each call of a history was allowed by the protocol when it was made. -/
theorem Prog.Obeys.may_of_path {p q : Prog S ε α} {h₁ h₂ : List (Transition S ε σ)}
    {e : Transition S ε σ} (hp : p.Obeys m P Q t) (hpath : p.Path (h₁ ++ e :: h₂) q)
    (hsound : ∀ e ∈ h₁, e.Sound m) : P.may (P.after t h₁) e.call := by
  induction h₁ generalizing p t with
  | nil =>
    cases hpath
    exact hp.1
  | cons e₁ h₁ ih =>
    obtain ⟨⟨fault, hanswer⟩, hrest⟩ := List.forall_mem_cons.mp hsound
    cases hpath with
    | @cons c next r before after h q hpath =>
      have hnext := hp.2 fault before
      rw [Machine.transition, hanswer] at hnext
      exact ih hnext hpath hrest

theorem Answered.mono {h h' : List (Transition S ε σ)} {c : S.Cmd} {r : S.Reply c}
    (ha : Answered h c r) (hsub : h ⊆ h') : Answered h' c r := by
  obtain ⟨before, after, hmem⟩ := ha
  exact ⟨before, after, hsub hmem⟩

def Failed (h : List (Transition S ε σ)) (e : ε) : Prop :=
  ∃ before c after, ⟨before, c, .error e, after⟩ ∈ h

theorem Prog.Obeys.record {may : List (Transition S ε σ) → S.Cmd → Prop} {β : Type}
    {Q : List (Transition S ε σ) → Outcome ε β → Prop} {h : List (Transition S ε σ)} {c : S.Cmd}
    {f : S.Reply c → Prog S ε β} (hmay : may h c)
    (hok : ∀ s r s' h', m.step c s = (.ok r, s') → h ⊆ h' → Answered h' c r →
      (f r).Obeys m (.recording may) Q h')
    (herr : ∀ e h', Failed h' e → Q h' (.err e)) :
    ((Prog.ask c).bind f).Obeys m (.recording may) Q h := by
  refine ask hmay (fun s r s' hstep => ?_) (fun fault s e s' _ => ?_)
  · exact hok s r s' _ hstep (List.subset_append_left _ _)
      ⟨s, s', List.mem_append_right _ (List.mem_singleton_self _)⟩
  · exact herr e _ ⟨s, c, s', List.mem_append_right _ (List.mem_singleton_self _)⟩

theorem Prog.Obeys.record_bind {may : List (Transition S ε σ) → S.Cmd → Prop} {β γ : Type}
    {Q : List (Transition S ε σ) → Outcome ε γ → Prop} {h : List (Transition S ε σ)} {c : S.Cmd}
    {g : S.Reply c → Prog S ε β} {f : β → Prog S ε γ} (hmay : may h c)
    (hok : ∀ s r s' h', m.step c s = (.ok r, s') → h ⊆ h' → Answered h' c r →
      ((g r).bind f).Obeys m (.recording may) Q h')
    (herr : ∀ e h', Failed h' e → Q h' (.err e)) :
    (((Prog.ask c).bind g).bind f).Obeys m (.recording may) Q h := by
  rw [bind_assoc]
  exact record hmay hok herr

theorem Prog.Obeys.retains {may : List (Transition S ε σ) → S.Cmd → Prop}
    {T : List (Transition S ε σ) → Prop} {h : List (Transition S ε σ)} {ok : S.Cmd → Prop}
    {p : Prog S ε α} (hp : p.Calls ok) (hmay : ∀ h c, T h → ok c → may h c)
    (hT : ∀ h h', h ⊆ h' → T h → T h') (ht : T h) :
    p.Obeys m (.recording may) (fun h _ => T h) h :=
  of_calls (fun h c ht hc => hmay h c ht hc)
    (fun _ _ _ _ ht _ => hT _ _ (List.subset_append_left _ _) ht) hp ht

def Prog.AtMost (f : S.Cmd → Bool) : ℕ → Prog S ε α → Prop
  | _, ret _ => True
  | _, fail _ => True
  | _, abort => True
  | n, call c next =>
    if f c then 0 < n ∧ ∀ r, (next r).AtMost f (n - 1) else ∀ r, (next r).AtMost f n

namespace Prog.AtMost

variable {β : Type} {f : S.Cmd → Bool} {n k : ℕ}

theorem mono {p : Prog S ε α} (hp : p.AtMost f n) (hle : n ≤ k) : p.AtMost f k := by
  induction p generalizing n k with
  | ret a => trivial
  | fail e => trivial
  | abort => trivial
  | call c next ih =>
    unfold AtMost at hp ⊢
    split at hp
    · rename_i hc
      rw [if_pos hc]
      exact ⟨Nat.lt_of_lt_of_le hp.1 hle, fun r => ih r (hp.2 r) (Nat.sub_le_sub_right hle 1)⟩
    · rename_i hc
      rw [if_neg hc]
      exact fun r => ih r (hp r) hle

theorem bind {p : Prog S ε α} {g : α → Prog S ε β} (hp : p.AtMost f n)
    (hg : ∀ a, (g a).AtMost f k) : (p.bind g).AtMost f (n + k) := by
  induction p generalizing n with
  | ret a => exact (hg a).mono (Nat.le_add_left _ _)
  | fail e => trivial
  | abort => trivial
  | call c next ih =>
    rw [call_bind]
    unfold AtMost at hp ⊢
    split at hp
    · rename_i hc
      rw [if_pos hc]
      refine ⟨Nat.add_pos_left hp.1 k, fun r => ?_⟩
      rw [Nat.sub_add_comm hp.1]
      exact ih r (hp.2 r)
    · rename_i hc
      rw [if_neg hc]
      exact fun r => ih r (hp r)

theorem of_calls {ok : S.Cmd → Prop} (hok : ∀ c, ok c → f c = false) {p : Prog S ε α}
    (hp : p.Calls ok) : p.AtMost f 0 := by
  induction p with
  | ret a => trivial
  | fail e => trivial
  | abort => trivial
  | call c next ih =>
    unfold AtMost
    rw [hok c hp.1, if_neg Bool.false_ne_true]
    exact fun r => ih r (hp.2 r)

theorem ask (c : S.Cmd) : (Prog.ask c : Prog S ε (S.Reply c)).AtMost f 1 := by
  rw [Prog.ask, AtMost]
  split
  · exact ⟨Nat.one_pos, fun r => by cases r <;> trivial⟩
  · exact fun r => by cases r <;> trivial

theorem countP_le {p q : Prog S ε α} {h : List (Transition S ε σ)} (hp : p.AtMost f n)
    (hpath : p.Path h q) : h.countP (fun e => f e.call) ≤ n := by
  induction hpath generalizing n with
  | nil p => exact Nat.zero_le n
  | @cons c next r before after h q _ ih =>
    rw [List.countP_cons]
    unfold AtMost at hp
    split at hp
    · rename_i hc
      rw [if_pos hc]
      exact Nat.le_sub_one_iff_lt hp.1 |>.mp (ih (hp.2 r))
    · rename_i hc
      rw [if_neg hc]
      exact ih (hp r)

end Prog.AtMost

namespace Pool

variable {p : Pool S ε σ α} {turn : Turn S ε}

def stepped (m : Machine S ε σ) (p : Pool S ε σ α) (i : ℕ) (h : List (Transition S ε σ)) (c : S.Cmd)
    (next : Except ε (S.Reply c) → Prog S ε α) (fault : Option ε) : Pool S ε σ α :=
  ⟨(m.answer c fault p.state).2,
    p.threads.set i ⟨next (m.answer c fault p.state).1, h ++ [m.transition c fault p.state]⟩⟩

theorem turn_cases (m : Machine S ε σ) (p : Pool S ε σ α) (turn : Turn S ε) :
    p.turn m turn = p ∨
      (∃ c, turn = .other c ∧ p.turn m turn = ⟨(m.step c p.state).2, p.threads⟩) ∨
      ∃ i fault h c next, turn = .thread i fault ∧ p.threads[i]? = some ⟨.call c next, h⟩ ∧
        p.calling turn = some c ∧ p.turn m turn = p.stepped m i h c next fault := by
  cases turn with
  | other c => exact .inr (.inl ⟨c, rfl, rfl⟩)
  | thread i fault =>
    cases hth : p.threads[i]? with
    | none =>
      left
      simp only [Pool.turn, hth]
    | some th =>
      obtain ⟨rest, h⟩ := th
      cases rest with
      | call c next =>
        refine .inr (.inr ⟨i, fault, h, c, next, rfl, hth, ?_, ?_⟩)
        · simp only [calling, hth, Option.bind_some]
        · simp only [Pool.turn, hth, Thread.advance]
          rfl
      | _ =>
        left
        obtain ⟨s, threads⟩ := p
        obtain ⟨hi, hi'⟩ := List.getElem?_eq_some_iff.mp hth
        simp only [Pool.turn, hth, Thread.advance]
        rw [← hi', List.set_getElem_self]

/-- The calls that the threads have made. -/
def events (p : Pool S ε σ α) : List (Transition S ε σ) := p.threads.flatMap Thread.history

theorem mem_events {e : Transition S ε σ} : e ∈ p.events ↔ ∃ th ∈ p.threads, e ∈ th.history :=
  List.mem_flatMap

theorem tally_eq_countP (p : Pool S ε σ α) (f : Transition S ε σ → Bool) :
    p.tally f = p.events.countP f := by
  rw [tally, events, List.countP_flatMap]
  rfl

@[simp] theorem events_start (progs : List (Prog S ε α)) (s : σ) : (start progs s).events = [] := by
  simp only [events, start, List.flatMap_map]
  exact List.flatMap_eq_nil_iff.mpr fun _ _ => rfl

theorem events_set {threads : List (Thread S ε σ α)} {i : ℕ} {th : Thread S ε σ α}
    (hi : threads[i]? = some th) (rest : Prog S ε α) (e : Transition S ε σ) :
    ((threads.set i ⟨rest, th.history ++ [e]⟩).flatMap Thread.history).Perm
      (threads.flatMap Thread.history ++ [e]) := by
  induction threads generalizing i with
  | nil => cases hi
  | cons a threads ih =>
    cases i with
    | zero =>
      obtain rfl : a = th := Option.some.inj hi
      simp only [List.set_cons_zero, List.flatMap_cons, List.append_assoc]
      exact List.Perm.append_left _ List.perm_append_comm
    | succ i =>
      simp only [List.set_cons_succ, List.flatMap_cons, List.append_assoc]
      exact List.Perm.append_left _ (ih hi)

theorem stepped_events {i : ℕ} {h : List (Transition S ε σ)} {c : S.Cmd}
    {next : Except ε (S.Reply c) → Prog S ε α} (hi : p.threads[i]? = some ⟨.call c next, h⟩)
    (fault : Option ε) :
    (p.stepped m i h c next fault).events.Perm (p.events ++ [m.transition c fault p.state]) :=
  events_set hi _ _

theorem start_history {progs : List (Prog S ε α)} {s : σ} {i : ℕ} {th : Thread S ε σ α}
    (hi : (start progs s).threads[i]? = some th) : th.history = [] := by
  rw [start, List.getElem?_map] at hi
  obtain ⟨q, -, rfl⟩ := Option.map_eq_some_iff.mp hi
  rfl

/-- Each turn of a run meets a condition in the pool that it finds. -/
def Along (m : Machine S ε σ) (C : Pool S ε σ α → Turn S ε → Prop) :
    List (Turn S ε) → Pool S ε σ α → Prop
  | [], _ => True
  | turn :: turns, p => C p turn ∧ Along m C turns (p.turn m turn)

variable {C : Pool S ε σ α → Turn S ε → Prop} {turns : List (Turn S ε)}

theorem Along.keeps {J : Pool S ε σ α → Prop} (hturn : ∀ p turn, C p turn → J p → J (p.turn m turn))
    (h : Along m C turns p) (hp : J p) : J (p.run m turns) := by
  induction turns generalizing p with
  | nil => exact hp
  | cons turn turns ih => exact ih h.2 (hturn p turn h.1 hp)

theorem Along.of_forall (h : ∀ p, ∀ turn ∈ turns, C p turn) : Along m C turns p := by
  induction turns generalizing p with
  | nil => trivial
  | cons turn turns ih =>
    exact ⟨h p turn List.mem_cons_self, ih fun p turn ht => h p turn (List.mem_cons_of_mem _ ht)⟩

instance Along.decidable [∀ p turn, Decidable (C p turn)] :
    (turns : List (Turn S ε)) → (p : Pool S ε σ α) → Decidable (Along m C turns p)
  | [], _ => .isTrue trivial
  | turn :: turns, p =>
    haveI := Along.decidable turns (p.turn m turn)
    inferInstanceAs (Decidable (C p turn ∧ _))

theorem Along.and {C' : Pool S ε σ α → Turn S ε → Prop} (h : Along m C turns p)
    (h' : Along m C' turns p) : Along m (fun p turn => C p turn ∧ C' p turn) turns p := by
  induction turns generalizing p with
  | nil => trivial
  | cons turn turns ih => exact ⟨⟨h.1, h'.1⟩, ih h.2 h'.2⟩

theorem Along.and_keeps {K : Pool S ε σ α → Prop} (hturn : ∀ p turn, K p → K (p.turn m turn))
    (h : Along m C turns p) (hp : K p) : Along m (fun p turn => K p ∧ C p turn) turns p := by
  induction turns generalizing p with
  | nil => trivial
  | cons turn turns ih => exact ⟨⟨hp, h.1⟩, ih h.2 (hturn p turn hp)⟩

theorem Along.mono {C' : Pool S ε σ α → Turn S ε → Prop} (hC : ∀ p turn, C p turn → C' p turn)
    (h : Along m C turns p) : Along m C' turns p := by
  induction turns generalizing p with
  | nil => trivial
  | cons turn turns ih => exact ⟨hC p turn h.1, ih h.2⟩

theorem Along.events {J : σ → List (Transition S ε σ) → Prop}
    (hperm : ∀ s es es', es.Perm es' → J s es → J s es')
    (hown : ∀ p turn e, C p turn → p.calling turn = some e.call → e.Sound m → e.before = p.state →
      J p.state p.events → J e.after (p.events ++ [e]))
    (hother : ∀ p c, C p (.other c) → J p.state p.events → J (m.step c p.state).2 p.events)
    (h : Along m C turns p) (hp : J p.state p.events) :
    J (p.run m turns).state (p.run m turns).events := by
  refine h.keeps (J := fun p => J p.state p.events) (fun p turn hturn hJ => ?_) hp
  rcases p.turn_cases m turn with hsame | ⟨c, rfl, hsame⟩ | ⟨i, fault, h, c, next, -, hi, hc, hsame⟩
  · rwa [hsame]
  · rw [hsame]
    exact hother p c hturn hJ
  · rw [hsame]
    refine hperm _ _ _ (stepped_events hi fault).symm ?_
    exact hown p turn (m.transition c fault p.state) hturn hc ⟨fault, rfl⟩ rfl hJ

theorem keeps_threads {I : σ → Prop} {K : Thread S ε σ α → Prop} {ok : S.Cmd → Prop}
    (hcall : ∀ s h c next fault, I s → K ⟨.call c next, h⟩ → I (m.answer c fault s).2 ∧
      K ⟨next (m.answer c fault s).1, h ++ [m.transition c fault s]⟩)
    (hother : ∀ s c, ok c → I s → I (m.step c s).2)
    (hturns : ∀ c, Turn.other c ∈ turns → ok c) (hI : I p.state) (hK : ∀ th ∈ p.threads, K th) :
    I (p.run m turns).state ∧ ∀ th ∈ (p.run m turns).threads, K th := by
  induction turns generalizing p with
  | nil => exact ⟨hI, hK⟩
  | cons turn turns ih =>
    rw [run_cons]
    suffices hturn : I (p.turn m turn).state ∧ ∀ th ∈ (p.turn m turn).threads, K th from
      ih (fun c hc => hturns c (List.mem_cons_of_mem _ hc)) hturn.1 hturn.2
    rcases p.turn_cases m turn with hsame | ⟨c, rfl, hsame⟩ | ⟨i, fault, h, c, next, -, hi, -, hsame⟩
    · rw [hsame]
      exact ⟨hI, hK⟩
    · rw [hsame]
      exact ⟨hother _ c (hturns c List.mem_cons_self) hI, hK⟩
    · rw [hsame]
      obtain ⟨hI', hK'⟩ := hcall p.state h c next fault hI (hK _ (List.mem_of_getElem? hi))
      refine ⟨hI', fun th hth => ?_⟩
      rcases List.mem_or_eq_of_mem_set hth with hth | rfl
      · exact hK th hth
      · exact hK'

/-- The calls of a thread that has not begun find states that the run keeps. -/
theorem Along.befores {I : σ → Prop}
    (hkeep : ∀ p turn, C p turn → I p.state → I (p.turn m turn).state) {j : ℕ}
    (h : Along m C turns p) (hp : I p.state) (hj : ∀ th, p.threads[j]? = some th → th.history = []) :
    ∀ th, (p.run m turns).threads[j]? = some th → ∀ e ∈ th.history, I e.before := by
  suffices hall : I (p.run m turns).state ∧
      ∀ th, (p.run m turns).threads[j]? = some th → ∀ e ∈ th.history, I e.before from hall.2
  refine h.keeps (J := fun p => I p.state ∧
    ∀ th, p.threads[j]? = some th → ∀ e ∈ th.history, I e.before) (fun p turn hturn hJ => ?_)
    ⟨hp, fun th hth e he => by rw [hj th hth] at he; cases he⟩
  refine ⟨hkeep p turn hturn hJ.1, fun th hth e he => ?_⟩
  rcases p.turn_cases m turn with hsame | ⟨c, -, hsame⟩ | ⟨i, fault, h, c, next, -, hi, -, hsame⟩
  · rw [hsame] at hth
    exact hJ.2 th hth e he
  · rw [hsame] at hth
    exact hJ.2 th hth e he
  · rw [hsame, stepped] at hth
    by_cases hij : i = j
    · subst hij
      obtain ⟨hlt, -⟩ := List.getElem?_eq_some_iff.mp hi
      rw [List.getElem?_set_self hlt] at hth
      obtain rfl := Option.some.inj hth
      rcases List.mem_append.mp he with he | he
      · exact hJ.2 _ hi e he
      · obtain rfl := List.mem_singleton.mp he
        exact hJ.1
    · rw [List.getElem?_set_ne hij] at hth
      exact hJ.2 th hth e he

end Pool

theorem forall₂_getElem? {ι κ : Type} {R : ι → κ → Prop} {as : List ι} {bs : List κ}
    (h : List.Forall₂ R as bs) {i : ℕ} {a : ι} {b : κ} (ha : as[i]? = some a)
    (hb : bs[i]? = some b) : R a b := by
  obtain ⟨hi, rfl⟩ := List.getElem?_eq_some_iff.mp ha
  obtain ⟨hi', rfl⟩ := List.getElem?_eq_some_iff.mp hb
  exact h.get hi hi'

theorem Pool.sound_at (m : Machine S ε σ) (progs : List (Prog S ε α)) (s : σ)
    (turns : List (Turn S ε)) {i : ℕ} {th : Thread S ε σ α}
    (hi : ((Pool.start progs s).run m turns).threads[i]? = some th) :
    ∃ q, progs[i]? = some q ∧ th.Sound m (fun _ => True) q := by
  have hall := (Pool.run_sound (m := m) (I := fun _ => True) (fun _ _ _ => trivial) trivial
    (Pool.start_sound progs s) turns).2
  obtain ⟨hlt, rfl⟩ := List.getElem?_eq_some_iff.mp hi
  have hlt' : i < progs.length := hall.length_eq ▸ hlt
  exact ⟨progs[i], List.getElem?_eq_getElem hlt', hall.get hlt' hlt⟩

theorem Pool.two_le_tally {p : Pool S ε σ α} {f : Transition S ε σ → Bool} {i j : ℕ}
    {a b : Thread S ε σ α} (hij : i ≠ j) (hi : p.threads[i]? = some a) (hj : p.threads[j]? = some b)
    (ha : 0 < a.history.countP f) (hb : 0 < b.history.countP f) : 2 ≤ p.tally f := by
  obtain ⟨s, threads⟩ := p
  have hrest := sum_map_set hi (⟨a.rest, []⟩ : Thread S ε σ α) fun th => th.history.countP f
  have hmem : b ∈ threads.set i ⟨a.rest, []⟩ :=
    List.mem_of_getElem? ((List.getElem?_set_ne hij).trans hj)
  have hle := le_sum_map hmem fun th => th.history.countP f
  simp only [Pool.tally, List.countP_nil] at hrest hle ⊢
  omega

theorem Pool.tally_le {ι : Type} {R : ι → Thread S ε σ α → Prop} {f : Transition S ε σ → Bool}
    {bound : ι → ℕ} {as : List ι} {p : Pool S ε σ α} (h : List.Forall₂ R as p.threads)
    (hle : ∀ a th, R a th → th.history.countP f ≤ bound a) : p.tally f ≤ (as.map bound).sum := by
  obtain ⟨s, threads⟩ := p
  simp only [Pool.tally] at h ⊢
  induction h with
  | nil => exact Nat.le_refl _
  | cons hab _ ih =>
    simp only [List.map_cons, List.sum_cons]
    exact Nat.add_le_add (hle _ _ hab) ih

theorem Thread.Sound.obeys {I : σ → Prop} {q : Prog S ε α} {th : Thread S ε σ α}
    (hth : th.Sound m I q) (hq : q.Obeys m P Q t) : th.rest.Obeys m P Q (P.after t th.history) :=
  hq.path hth.path fun e he => (hth.calls e he).2

end Interaction
