import Soika.Library.Serial

/-! # What a program returns

A program runs to its end with each call answered in a world of its own. What holds
whenever it returns is followed through its calls: a call that fails ends the program,
and nothing is said about such an end.
-/

namespace Interaction

variable {S : Signature} {ε α β σ ω : Type}

namespace Prog

/-- Run a program to its end, each call in the world of its turn. -/
def runIn (m : ω → Machine S ε σ) : Prog S ε α → (ℕ → ω) → σ → Outcome ε α × σ
  | ret a, _, s => (.ok a, s)
  | fail e, _, s => (.err e, s)
  | abort, _, s => (.panic, s)
  | call c next, ws, s =>
    (next ((m (ws 0)).step c s).1).runIn m (fun n => ws (n + 1)) ((m (ws 0)).step c s).2

variable (m : ω → Machine S ε σ) (A : ω → Prop)

/-- Whenever the program returns, it returns with `Q`, in whatever worlds with `A` its calls are
answered. -/
def Returns (Q : α → σ → Prop) : Prog S ε α → σ → Prop
  | ret a, s => Q a s
  | fail _, _ => True
  | abort, _ => True
  | call c next, s => ∀ w, A w → (next ((m w).step c s).1).Returns Q ((m w).step c s).2

variable {m A} {Q : α → σ → Prop}

theorem Returns.runIn {p : Prog S ε α} {ws : ℕ → ω} {s s' : σ} {a : α} (h : p.Returns m A Q s)
    (hws : ∀ n, A (ws n)) (hrun : p.runIn m ws s = (.ok a, s')) : Q a s' := by
  induction p generalizing s ws with
  | ret b =>
    cases hrun
    exact h
  | fail e => cases hrun
  | abort => cases hrun
  | call c next ih => exact ih _ (h (ws 0) (hws 0)) (fun n => hws (n + 1)) hrun

theorem Returns.mono {Q' : α → σ → Prop} (hQ : ∀ a s, Q a s → Q' a s) {p : Prog S ε α} {s : σ}
    (h : p.Returns m A Q s) : p.Returns m A Q' s := by
  induction p generalizing s with
  | ret a => exact hQ a s h
  | fail e => trivial
  | abort => trivial
  | call c next ih => exact fun w hw => ih _ (h w hw)

theorem returns_bind {p : Prog S ε α} {f : α → Prog S ε β} {Q : β → σ → Prop} {s : σ} :
    (p.bind f).Returns m A Q s ↔ p.Returns m A (fun a s' => (f a).Returns m A Q s') s := by
  induction p generalizing s with
  | ret a => rfl
  | fail e => rfl
  | abort => rfl
  | call c next ih =>
    constructor
    · intro h w hw
      exact (ih _).mp (h w hw)
    · intro h w hw
      exact (ih _).mpr (h w hw)

theorem returns_ask {c : S.Cmd} {Q : S.Reply c → σ → Prop} {s : σ} :
    (ask c : Prog S ε (S.Reply c)).Returns m A Q s ↔
      ∀ w, A w → ∀ r s', (m w).step c s = (.ok r, s') → Q r s' := by
  constructor
  · intro h w hw r s' hstep
    have hnext := h w hw
    rw [hstep] at hnext
    exact hnext
  · intro h w hw
    rcases hstep : (m w).step c s with ⟨e | r, s'⟩
    · trivial
    · exact h w hw r s' hstep

theorem returns_orAbort {a : Option α} {s : σ} :
    (orAbort a : Prog S ε α).Returns m A Q s ↔ ∀ x, a = some x → Q x s := by
  cases a with
  | none => exact ⟨fun _ => nofun, fun _ => trivial⟩
  | some x =>
    constructor
    · rintro h _ ⟨⟩
      exact h
    · intro h
      exact h x rfl

end Prog

namespace Machine

def faulty (M : Machine S ε σ) (fault : Option ε) : Machine S ε σ := ⟨fun c s => M.answer c fault s⟩

end Machine

namespace Prog

variable (m : ω → Machine S ε σ)

/-- In whatever worlds its calls are answered, the program ends with `Q`. -/
def Concludes (Q : Outcome ε α → σ → Prop) : Prog S ε α → σ → Prop
  | ret a, s => Q (.ok a) s
  | fail e, s => Q (.err e) s
  | abort, s => Q .panic s
  | call c next, s => ∀ w, (next ((m w).step c s).1).Concludes Q ((m w).step c s).2

variable {m} {Q : Outcome ε α → σ → Prop}

theorem Concludes.mono {Q' : Outcome ε α → σ → Prop} (hQ : ∀ o s, Q o s → Q' o s) {p : Prog S ε α} {s : σ}
    (h : p.Concludes m Q s) : p.Concludes m Q' s := by
  induction p generalizing s with
  | ret a => exact hQ _ s h
  | fail e => exact hQ _ s h
  | abort => exact hQ _ s h
  | call c next ih => exact fun w => ih _ (h w)

/-- A sequence goes on with the value of its first program, or ends as that does. -/
theorem concludes_bind {p : Prog S ε α} {f : α → Prog S ε β} {Q : Outcome ε β → σ → Prop} {s : σ} :
    (p.bind f).Concludes m Q s ↔ p.Concludes m (fun
      | .ok a, s' => (f a).Concludes m Q s'
      | .err e, s' => Q (.err e) s'
      | .panic, s' => Q .panic s') s := by
  induction p generalizing s with
  | ret a => rfl
  | fail e => rfl
  | abort => rfl
  | call c next ih =>
    constructor
    · intro h w
      exact (ih _).mp (h w)
    · intro h w
      exact (ih _).mpr (h w)

theorem Concludes.ask_bind {c : S.Cmd} {f : S.Reply c → Prog S ε α} {s : σ}
    (herror : ∀ w e s', (m w).step c s = (.error e, s') → Q (.err e) s')
    (hok : ∀ w r s', (m w).step c s = (.ok r, s') → (f r).Concludes m Q s') :
    ((ask c).bind f).Concludes m Q s := by
  intro w
  rcases h : (m w).step c s with ⟨e | r, s'⟩
  · exact herror w e s' h
  · exact hok w r s' h

theorem Concludes.orAbort_bind {a : Option β} {f : β → Prog S ε α} {s : σ} (hs : Q .panic s)
    (hf : ∀ x, a = some x → (f x).Concludes m Q s) : ((orAbort a).bind f).Concludes m Q s := by
  cases a with
  | none => exact hs
  | some x => exact hf x rfl

theorem Concludes.exec {M : Machine S ε σ} {p : Prog S ε α} {s : σ} (h : p.Concludes M.faulty Q s)
    (φ : Faults ε) : Q (M.exec p φ s).outcome (M.exec p φ s).state := by
  induction p generalizing s φ with
  | ret a => exact h
  | fail e => exact h
  | abort => exact h
  | call c next ih => exact ih _ (h (φ 0)) φ.tail

end Prog

end Interaction
