import Mathlib.Tactic.SplitIfs
import Soika.Library.Prog

/-! # Programs run one at a time

A lock admits one program at a time. The store answers its calls in a world that may
be another one at each call, which also says what goes wrong; and the process may
die between any two calls. What a program leaves behind, wherever it ends or is cut
off, is followed through its calls once; runs of many programs keep it.
-/

namespace Interaction

variable {S : Signature} {ε α β σ ι ω : Type}

namespace Prog

variable (m : ω → Machine S ε σ) (Q : σ → Prop)

/-- Wherever the program ends or is cut off, in whatever worlds its calls are answered, it leaves
a state with `Q`. -/
def Leaves : Prog S ε α → σ → Prop
  | call c next, s => Q s ∧ ∀ w, (next ((m w).step c s).1).Leaves ((m w).step c s).2
  | _, s => Q s

variable {m Q}

theorem Leaves.here {p : Prog S ε α} {s : σ} (h : p.Leaves m Q s) : Q s := by
  cases p with
  | call c next => exact h.1
  | _ => exact h

theorem Leaves.mono {Q' : σ → Prop} (hQ : ∀ s, Q s → Q' s) {p : Prog S ε α} {s : σ}
    (h : p.Leaves m Q s) : p.Leaves m Q' s := by
  induction p generalizing s with
  | ret a => exact hQ s h
  | fail e => exact hQ s h
  | abort => exact hQ s h
  | call c next ih => exact ⟨hQ s h.1, fun w => ih _ (h.2 w)⟩

theorem Leaves.ask_bind {c : S.Cmd} {f : S.Reply c → Prog S ε β} {s : σ} (hs : Q s)
    (herror : ∀ w e s', (m w).step c s = (.error e, s') → Q s')
    (hok : ∀ w r s', (m w).step c s = (.ok r, s') → (f r).Leaves m Q s') :
    ((ask c).bind f).Leaves m Q s := by
  refine ⟨hs, fun w => ?_⟩
  rcases h : (m w).step c s with ⟨e | r, s'⟩
  · exact herror w e s' h
  · exact hok w r s' h

/-- A call that leaves the state alone is followed by what the program does with its reply. -/
theorem Leaves.read_bind {c : S.Cmd} (hc : ∀ w s, ((m w).step c s).2 = s)
    {f : S.Reply c → Prog S ε β} {s : σ} (hs : Q s)
    (hok : ∀ w r s', (m w).step c s = (.ok r, s') → (f r).Leaves m Q s) :
    ((ask c).bind f).Leaves m Q s := by
  refine Leaves.ask_bind hs (fun w e s' h => ?_) (fun w r s' h => ?_)
  · obtain rfl : s' = s := (congrArg Prod.snd h).symm.trans (hc w s)
    exact hs
  · obtain rfl : s' = s := (congrArg Prod.snd h).symm.trans (hc w s)
    exact hok w r s' h

theorem Leaves.orAbort_bind {a : Option α} {f : α → Prog S ε β} {s : σ} (hs : Q s)
    (hf : ∀ x, a = some x → (f x).Leaves m Q s) : ((orAbort a).bind f).Leaves m Q s := by
  cases a with
  | none => exact hs
  | some x => exact hf x rfl

theorem Leaves.bind_ret {p : Prog S ε α} {g : α → β} {s : σ} (h : p.Leaves m Q s) :
    (p.bind fun a => ret (g a)).Leaves m Q s := by
  induction p generalizing s with
  | ret a => exact h
  | fail e => exact h
  | abort => exact h
  | call c next ih => exact ⟨h.1, fun w => ih _ (h.2 w)⟩

theorem Leaves.result {p : Prog S ε α} {s : σ} (h : p.Leaves m Q s) : p.result.Leaves m Q s := by
  induction p generalizing s with
  | ret a => exact h
  | fail e => exact h
  | abort => exact h
  | call c next ih => exact ⟨h.1, fun w => ih _ (h.2 w)⟩

end Prog

structure Serial (S : Signature) (ε σ : Type) where
  state : σ
  current : Option (Prog S ε Unit)

namespace Serial

/-- What happens next: a program takes the lock, its next call is answered, or the process dies.
A program that finds the lock taken waits. -/
inductive Move (ι ω : Type) where
  | start (i : ι)
  | turn (w : ω)
  | crash

def holding (p : Prog S ε Unit) : Option (Prog S ε Unit) := if p.ended then none else some p

variable (m : ω → Machine S ε σ) (prog : ι → Prog S ε Unit)

def move : Move ι ω → Serial S ε σ → Serial S ε σ
  | .start i, ⟨s, none⟩ => ⟨s, holding (prog i)⟩
  | .start _, x => x
  | .turn w, ⟨s, some (.call c next)⟩ =>
    ⟨((m w).step c s).2, holding (next ((m w).step c s).1)⟩
  | .turn _, x => ⟨x.state, none⟩
  | .crash, x => ⟨x.state, none⟩

def run (moves : List (Move ι ω)) (x : Serial S ε σ) : Serial S ε σ :=
  moves.foldl (fun x mv => move m prog mv x) x

/-- Every program that ends or is cut off in the run leaves a state with `P`. -/
def EndsIn (P : σ → Prop) : List (Move ι ω) → Serial S ε σ → Prop
  | [], _ => True
  | mv :: moves, x =>
    (x.current.isSome → (move m prog mv x).current.isNone → P (move m prog mv x).state) ∧
      EndsIn P moves (move m prog mv x)

def decidableEndsIn (P : σ → Prop) [DecidablePred P] :
    (moves : List (Move ι ω)) → (x : Serial S ε σ) → Decidable (EndsIn m prog P moves x)
  | [], _ => .isTrue trivial
  | mv :: moves, x =>
    have := decidableEndsIn P moves (move m prog mv x)
    inferInstanceAs (Decidable ((_ → _ → _) ∧ _))

instance (P : σ → Prop) [DecidablePred P] (moves : List (Move ι ω)) (x : Serial S ε σ) :
    Decidable (EndsIn m prog P moves x) :=
  decidableEndsIn m prog P moves x

theorem endsIn_of_forall {m : ω → Machine S ε σ} {prog : ι → Prog S ε Unit} {P : σ → Prop}
    (hP : ∀ s, P s) {moves : List (Move ι ω)} {x : Serial S ε σ} : EndsIn m prog P moves x := by
  induction moves generalizing x with
  | nil => trivial
  | cons mv moves ih => exact ⟨fun _ _ => hP _, ih⟩

/-- Between programs `I` holds; a program under way will leave `I` if it leaves `P`. -/
def Sound (P I : σ → Prop) (x : Serial S ε σ) : Prop :=
  match x.current with
  | none => I x.state
  | some p => p.Leaves m (fun s => P s → I s) x.state

variable {m prog} {P I : σ → Prop}

theorem sound_holding {p : Prog S ε Unit} {s : σ} (hp : p.Leaves m (fun s => P s → I s) s)
    (hend : p.ended = true → I s) : Sound m P I ⟨s, holding p⟩ := by
  unfold holding
  split_ifs with h
  · exact hend h
  · exact hp

theorem Sound.cut {x : Serial S ε σ} (hx : Sound m P I x) (hend : x.current.isSome → P x.state) :
    I x.state := by
  obtain ⟨s, p | p⟩ := x
  · exact hx
  · exact hx.here (hend rfl)

/-- A move keeps the invariant, when a program that ends leaves `P`. -/
theorem Sound.move (hstart : ∀ i s, I s → (prog i).Leaves m (fun s => P s → I s) s)
    (mv : Move ι ω) {x : Serial S ε σ} (hx : Sound m P I x)
    (hend : x.current.isSome → (Serial.move m prog mv x).current.isNone →
      P (Serial.move m prog mv x).state) : Sound m P I (Serial.move m prog mv x) := by
  obtain ⟨s, current⟩ := x
  cases mv with
  | start i =>
    cases current with
    | none => exact sound_holding (hstart i s hx) fun _ => hx
    | some p => exact hx
  | turn w =>
    cases current with
    | none => exact hx
    | some p =>
      cases p with
      | call c next =>
        have hnext := hx.2 w
        refine sound_holding hnext fun hended => hnext.here (hend rfl ?_)
        simp [Serial.move, holding, hended]
      | _ => exact hx.cut fun _ => hend rfl rfl
  | crash => exact hx.cut fun hsome => hend hsome rfl

theorem Sound.run (hstart : ∀ i s, I s → (prog i).Leaves m (fun s => P s → I s) s)
    {moves : List (Move ι ω)} {x : Serial S ε σ} (hx : Sound m P I x)
    (hends : EndsIn m prog P moves x) : Sound m P I (Serial.run m prog moves x) := by
  induction moves generalizing x with
  | nil => exact hx
  | cons mv moves ih => exact ih (hx.move hstart mv hends.1) hends.2

end Serial

end Interaction
