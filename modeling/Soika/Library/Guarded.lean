import Soika.Library.Histories

/-! # Guarded calls

Programs whose calls are permitted by what they have read before. In every run each call of such a
program has its permission; and if what is permitted by reads on good states leads from a good state
to a good state, no run leaves the good states.
-/

namespace Interaction

variable {S : Signature} {ε σ α : Type} {m : Machine S ε σ} {I : σ → Prop}
  {h h' : List (Transition S ε σ)}

/-- The calls of the history were made on good states, and answered by the machine. -/
def Witnessed (m : Machine S ε σ) (I : σ → Prop) (h : List (Transition S ε σ)) : Prop :=
  ∀ e ∈ h, I e.before ∧ e.Sound m

theorem Witnessed.answered (hw : Witnessed m I h) {c : S.Cmd} {r : S.Reply c}
    (ha : Answered h c r) : ∃ s s', I s ∧ m.step c s = (.ok r, s') := by
  obtain ⟨s, s', hmem⟩ := ha
  obtain ⟨hI, fault, hstep⟩ := hw _ hmem
  cases fault with
  | some e => cases hstep
  | none => exact ⟨s, s', hI, hstep⟩

theorem Witnessed.snoc (hw : Witnessed m I h) {s : σ} (hs : I s) (c : S.Cmd) (fault : Option ε) :
    Witnessed m I (h ++ [m.transition c fault s]) := by
  intro e he
  rcases List.mem_append.mp he with he | he
  · exact hw e he
  · obtain rfl := List.mem_singleton.mp he
    exact ⟨hs, fault, rfl⟩

section

variable {may : List (Transition S ε σ) → S.Cmd → Prop}
  {Q : List (Transition S ε σ) → Outcome ε α → Prop} {progs : List (Prog S ε α)} {s : σ}
  {turns : List (Turn S ε)}

/-- Whatever the others do, each call of a guarded program has its permission. -/
theorem Thread.Sound.permitted {I : σ → Prop} {q : Prog S ε α} {th : Thread S ε σ α}
    (hth : th.Sound m I q) (hq : q.Obeys m (.recording may) Q []) :
    (∀ h₁ e h₂, th.history = h₁ ++ e :: h₂ → may h₁ e.call) ∧
      th.rest.Obeys m (.recording may) Q th.history := by
  constructor
  · intro h₁ e h₂ hsplit
    have hpath := hth.path
    rw [hsplit] at hpath
    have hcalls : ∀ e' ∈ h₁, e'.Sound m := fun e' he' =>
      (hth.calls e' (hsplit ▸ List.mem_append_left _ he')).2
    have hmay := hq.may_of_path hpath hcalls
    rwa [Protocol.after_recording, List.nil_append] at hmay
  · simpa using hth.obeys hq

theorem Pool.run_guarded {ok : S.Cmd → Prop}
    (hown : ∀ s h c fault, I s → Witnessed m I h → may h c → I (m.answer c fault s).2)
    (hother : ∀ s c, ok c → I s → I (m.step c s).2)
    (hprogs : ∀ q ∈ progs, q.Obeys m (.recording may) Q []) (hs : I s)
    (hturns : ∀ c, Turn.other c ∈ turns → ok c) :
    I ((Pool.start progs s).run m turns).state ∧
      ∀ th ∈ ((Pool.start progs s).run m turns).threads,
        Witnessed m I th.history ∧ th.rest.Obeys m (.recording may) Q th.history := by
  apply Pool.keeps_threads (K := fun th =>
    Witnessed m I th.history ∧ th.rest.Obeys m (.recording may) Q th.history) ?_ hother hturns hs
  · intro th hth
    obtain ⟨q, hq, rfl⟩ := List.mem_map.mp hth
    exact ⟨fun e he => absurd he List.not_mem_nil, hprogs q hq⟩
  · rintro s h c next fault hI ⟨hw, hmay, hrest⟩
    exact ⟨hown s h c fault hI hw hmay, hw.snoc hI c fault, hrest fault s⟩

end

namespace Pool

variable {p : Pool S ε σ α} {turns : List (Turn S ε)}

theorem run_append (m : Machine S ε σ) (earlier later : List (Turn S ε)) (p : Pool S ε σ α) :
    p.run m (earlier ++ later) = (p.run m earlier).run m later := List.foldl_append

theorem exists_turn {P : σ → Prop} (h : P p.state) (hend : ¬ P (p.run m turns).state) :
    ∃ earlier turn later, turns = earlier ++ turn :: later ∧ P (p.run m earlier).state ∧
      ¬ P ((p.run m earlier).turn m turn).state := by
  induction turns generalizing p with
  | nil => exact absurd h hend
  | cons turn turns ih =>
    by_cases hnext : P (p.turn m turn).state
    · obtain ⟨earlier, turn', later, rfl, hholds, hnot⟩ := ih hnext hend
      exact ⟨turn :: earlier, turn', later, rfl, hholds, hnot⟩
    · exact ⟨[], turn, turns, rfl, h, hnext⟩

theorem exists_state {th : Thread S ε σ α} (hth : th ∈ (p.run m turns).threads)
    {e : Transition S ε σ} (he : e ∈ th.history) :
    (∃ th ∈ p.threads, e ∈ th.history) ∨
      ∃ earlier, earlier <+: turns ∧ e.before = (p.run m earlier).state := by
  induction turns generalizing p with
  | nil => exact .inl ⟨th, hth, he⟩
  | cons turn turns ih =>
    rcases ih hth with ⟨th', hth', he'⟩ | ⟨earlier, hsub, hbefore⟩
    · rcases p.turn_cases m turn with hsame | ⟨c, -, hsame⟩ | ⟨i, fault, h, c, next, -, hi, -, hsame⟩
      · exact .inl ⟨th', hsame ▸ hth', he'⟩
      · rw [hsame] at hth'
        exact .inl ⟨th', hth', he'⟩
      · rw [hsame] at hth'
        rcases List.mem_or_eq_of_mem_set hth' with hth' | rfl
        · exact .inl ⟨th', hth', he'⟩
        · rcases List.mem_append.mp he' with he' | he'
          · exact .inl ⟨_, List.mem_of_getElem? hi, he'⟩
          · obtain rfl := List.mem_singleton.mp he'
            exact .inr ⟨[], List.nil_prefix, rfl⟩
    · exact .inr ⟨turn :: earlier, List.cons_prefix_cons.mpr ⟨rfl, hsub⟩, hbefore⟩

end Pool

end Interaction
