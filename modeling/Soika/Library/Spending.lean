import Soika.Library.Prog

/-! # Spending

A program spends at most so much when every run of it, whatever it finds and whatever fails
on the way, relates the states before and after it at that amount. Amounts of the steps of a
sequence add up.
-/

namespace Interaction

variable {S : Signature} {ε α β σ : Type}

/-- Relations between two states, one for each amount that may be spent from one to the other. -/
structure Spending (R : ℕ → σ → σ → Prop) : Prop where
  refl : ∀ n s, R n s s
  trans : ∀ {n k s t u}, R n s t → R k t u → R (n + k) s u

namespace Machine

variable (m : Machine S ε σ) (R : ℕ → σ → σ → Prop)

def Spends (n : ℕ) (p : Prog S ε α) : Prop := ∀ φ s, R n s (m.exec p φ s).state

variable {m R} (spending : Spending R) {n k : ℕ} {p : Prog S ε α}
include spending

theorem Spends.ret (a : α) : m.Spends R n (.ret a) := fun _ s => spending.refl n s

theorem Spends.fail (e : ε) : m.Spends R n (.fail e : Prog S ε α) := fun _ s => spending.refl n s

theorem Spends.abort : m.Spends R n (.abort : Prog S ε α) := fun _ s => spending.refl n s

theorem Spends.orAbort (a : Option α) : m.Spends R n (Prog.orAbort a) := by
  cases a with
  | none => exact Spends.abort spending
  | some a => exact Spends.ret spending a

theorem Spends.mono (h : m.Spends R n p) (hle : n ≤ k) : m.Spends R k p := by
  intro φ s
  obtain ⟨d, rfl⟩ := Nat.exists_eq_add_of_le hle
  exact spending.trans (h φ s) (spending.refl d _)

/-- One call spends what it spends in any state; a call that fails on its way spends nothing. -/
theorem Spends.ask {c : S.Cmd} (h : ∀ s, R n s (m.step c s).2) :
    m.Spends R n (Prog.ask c) := by
  intro φ s
  rw [exec_ask]
  have hstate : R n s (m.answer c (φ 0) s).2 := by
    rcases m.answer_state c (φ 0) s with hs | hs
    · rw [hs]
      exact spending.refl n s
    · rw [hs]
      exact h s
  rcases hans : m.answer c (φ 0) s with ⟨_ | _, _⟩ <;> rw [hans] at hstate <;> exact hstate

theorem Spends.bind {f : α → Prog S ε β} (hp : m.Spends R n p) (hf : ∀ a, m.Spends R k (f a)) :
    m.Spends R (n + k) (p.bind f) := by
  intro φ s
  have hfirst := hp φ s
  rw [exec_bind]
  rcases hrun : m.exec p φ s with ⟨a | e | _, s', φ'⟩ <;> rw [hrun] at hfirst
  · exact spending.trans hfirst (hf a φ' s')
  · exact spending.trans hfirst (spending.refl k s')
  · exact spending.trans hfirst (spending.refl k s')

omit spending in
theorem Spends.result (hp : m.Spends R n p) : m.Spends R n p.result := by
  intro φ s
  have hstate := hp φ s
  rw [exec_result]
  rcases hrun : m.exec p φ s with ⟨a | e | _, s', φ'⟩ <;> rw [hrun] at hstate <;> exact hstate

end Machine

end Interaction
