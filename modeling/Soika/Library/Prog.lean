import Mathlib.Logic.Relation
import Mathlib.Data.Nat.Notation

/-! # Programs over a faulty store

A program is a tree of calls on a store that it does not own. A machine answers
the calls one by one; a fault stream says which calls fail before they reach it.
Sequencing, the calls of a run and reachable states are independent of what the
store is.
-/

namespace Interaction

structure Signature where
  Cmd : Type
  Reply : Cmd → Type

/--
Programs that return, fail, abort the process, or make a call and go on with its answer.
-/
inductive Prog (S : Signature) (ε α : Type) where
  | ret (a : α)
  | fail (e : ε)
  | abort
  | call (c : S.Cmd) (next : Except ε (S.Reply c) → Prog S ε α)

variable {S : Signature} {ε α β γ σ : Type}

namespace Prog

def bind : Prog S ε α → (α → Prog S ε β) → Prog S ε β
  | ret a, f => f a
  | fail e, _ => fail e
  | abort, _ => abort
  | call c next, f => call c fun r => (next r).bind f

instance : Monad (Prog S ε) where
  pure := ret
  bind := bind

def ask (c : S.Cmd) : Prog S ε (S.Reply c) :=
  call c fun
    | .ok r => ret r
    | .error e => fail e

/-- Make one call and look at its error instead of failing with it. -/
def attempt (c : S.Cmd) : Prog S ε (Except ε (S.Reply c)) :=
  call c ret

/-- Run a program and look at its error instead of failing with it. -/
def result : Prog S ε α → Prog S ε (Except ε α)
  | ret a => ret (.ok a)
  | fail e => ret (.error e)
  | abort => abort
  | call c next => call c fun r => (next r).result

/-- The value of a computation that aborts the process when it has none. -/
def orAbort : Option α → Prog S ε α
  | some a => ret a
  | none => abort

def ended : Prog S ε α → Bool
  | call _ _ => false
  | _ => true

@[simp] theorem pure_eq (a : α) : (pure a : Prog S ε α) = ret a := rfl
@[simp] theorem bind_eq (p : Prog S ε α) (f : α → Prog S ε β) : p >>= f = p.bind f := rfl
@[simp] theorem ret_bind (a : α) (f : α → Prog S ε β) : (ret a).bind f = f a := rfl
@[simp] theorem fail_bind (e : ε) (f : α → Prog S ε β) : (fail e).bind f = fail e := rfl
@[simp] theorem abort_bind (f : α → Prog S ε β) : (abort : Prog S ε α).bind f = abort := rfl
@[simp] theorem call_bind (c : S.Cmd) (next : Except ε (S.Reply c) → Prog S ε α)
    (f : α → Prog S ε β) : (call c next).bind f = call c fun r => (next r).bind f := rfl
@[simp] theorem orAbort_some (a : α) : (orAbort (some a) : Prog S ε α) = ret a := rfl
@[simp] theorem orAbort_none : (orAbort none : Prog S ε α) = abort := rfl

theorem bind_assoc (p : Prog S ε α) (f : α → Prog S ε β) (g : β → Prog S ε γ) :
    (p.bind f).bind g = p.bind fun a => (f a).bind g := by
  induction p with
  | ret a => rfl
  | fail e => rfl
  | abort => rfl
  | call c next ih => simp only [call_bind, ih]

theorem bind_ret (p : Prog S ε α) : p.bind ret = p := by
  induction p with
  | ret a => rfl
  | fail e => rfl
  | abort => rfl
  | call c next ih => simp only [call_bind, ih]

def Calls (ok : S.Cmd → Prop) : Prog S ε α → Prop
  | ret _ => True
  | fail _ => True
  | abort => True
  | call c next => ok c ∧ ∀ r, (next r).Calls ok

theorem Calls.ask {ok : S.Cmd → Prop} {c : S.Cmd} (h : ok c) :
    (Prog.ask c : Prog S ε (S.Reply c)).Calls ok :=
  ⟨h, fun r => by cases r <;> trivial⟩

theorem Calls.bind {ok : S.Cmd → Prop} {p : Prog S ε α} (hp : p.Calls ok) {f : α → Prog S ε β}
    (hf : ∀ a, (f a).Calls ok) : (p.bind f).Calls ok := by
  induction p with
  | ret a => exact hf a
  | fail e => exact hp
  | abort => exact hp
  | call c next ih => exact ⟨hp.1, fun r => ih r (hp.2 r)⟩

theorem Calls.all (p : Prog S ε α) : p.Calls fun _ => True := by
  induction p with
  | ret a => trivial
  | fail e => trivial
  | abort => trivial
  | call c next ih => exact ⟨trivial, ih⟩

theorem Calls.result {ok : S.Cmd → Prop} {p : Prog S ε α} (hp : p.Calls ok) :
    p.result.Calls ok := by
  induction p with
  | ret a => exact hp
  | fail e => trivial
  | abort => exact hp
  | call c next ih => exact ⟨hp.1, fun r => ih r (hp.2 r)⟩

instance : LawfulMonad (Prog S ε) :=
  LawfulMonad.mk' _ bind_ret (fun _ _ => rfl) bind_assoc

end Prog

inductive Outcome (ε α : Type) where
  | ok (a : α)
  | err (e : ε)
  | panic

/-- A store that answers each call and moves to its next state. -/
structure Machine (S : Signature) (ε σ : Type) where
  step : (c : S.Cmd) → σ → Except ε (S.Reply c) × σ

/-- Which calls of a run fail before they reach the store, and with which error. -/
abbrev Faults (ε : Type) := ℕ → Option ε

def Faults.tail (φ : Faults ε) : Faults ε := fun n => φ (n + 1)

/-- No call fails on its way to the store. -/
def Faults.none : Faults ε := fun _ => Option.none

@[simp] theorem Faults.tail_none : (Faults.none : Faults ε).tail = Faults.none := rfl
@[simp] theorem Faults.none_apply (n : ℕ) : (Faults.none : Faults ε) n = Option.none := rfl
@[simp] theorem Faults.tail_apply (φ : Faults ε) (n : ℕ) : φ.tail n = φ (n + 1) := rfl

/-- Faults `fs` on the first calls and none after them. -/
def Faults.ofList (fs : List (Option ε)) : Faults ε := fun n => fs.getD n Option.none

/-- The end of a program, the state it leaves and the faults it has not consumed. -/
structure Run (ε σ α : Type) where
  outcome : Outcome ε α
  state : σ
  faults : Faults ε

namespace Machine

variable (m : Machine S ε σ)

/-- The answer to a call that a fault may keep from the store. -/
def answer (c : S.Cmd) (fault : Option ε) (s : σ) : Except ε (S.Reply c) × σ :=
  match fault with
  | some e => (.error e, s)
  | none => m.step c s

@[simp] theorem answer_some (c : S.Cmd) (e : ε) (s : σ) :
    m.answer c (some e) s = (.error e, s) := rfl

@[simp] theorem answer_none (c : S.Cmd) (s : σ) : m.answer c none s = m.step c s := rfl

/-- Run a program to its end, alone on the store. -/
def exec : Prog S ε α → Faults ε → σ → Run ε σ α
  | .ret a, φ, s => ⟨.ok a, s, φ⟩
  | .fail e, φ, s => ⟨.err e, s, φ⟩
  | .abort, φ, s => ⟨.panic, s, φ⟩
  | .call c next, φ, s => exec (next (m.answer c (φ 0) s).1) φ.tail (m.answer c (φ 0) s).2

@[simp] theorem exec_ret (a : α) (φ : Faults ε) (s : σ) : m.exec (.ret a) φ s = ⟨.ok a, s, φ⟩ := rfl

@[simp] theorem exec_fail (e : ε) (φ : Faults ε) (s : σ) :
    m.exec (.fail e : Prog S ε α) φ s = ⟨.err e, s, φ⟩ := rfl

@[simp] theorem exec_abort (φ : Faults ε) (s : σ) :
    m.exec (.abort : Prog S ε α) φ s = ⟨.panic, s, φ⟩ := rfl

theorem exec_call (c : S.Cmd) (next : Except ε (S.Reply c) → Prog S ε α) (φ : Faults ε) (s : σ) :
    m.exec (.call c next) φ s =
      m.exec (next (m.answer c (φ 0) s).1) φ.tail (m.answer c (φ 0) s).2 := rfl

/-- A sequence runs its first program, and the second only after a regular end. -/
theorem exec_bind (p : Prog S ε α) (f : α → Prog S ε β) (φ : Faults ε) (s : σ) :
    m.exec (p.bind f) φ s =
      match m.exec p φ s with
      | ⟨.ok a, s', φ'⟩ => m.exec (f a) φ' s'
      | ⟨.err e, s', φ'⟩ => ⟨.err e, s', φ'⟩
      | ⟨.panic, s', φ'⟩ => ⟨.panic, s', φ'⟩ := by
  induction p generalizing φ s with
  | ret a => rfl
  | fail e => rfl
  | abort => rfl
  | call c next ih => simp only [Prog.call_bind, exec_call, ih]

/-- A sequence aborts in its first program, or in the second after a regular end of the first. -/
theorem exec_bind_panic {p : Prog S ε α} {f : α → Prog S ε β} {φ : Faults ε} {s : σ} :
    (m.exec (p.bind f) φ s).outcome = .panic ↔ (m.exec p φ s).outcome = .panic ∨
      ∃ a s' φ', m.exec p φ s = ⟨.ok a, s', φ'⟩ ∧ (m.exec (f a) φ' s').outcome = .panic := by
  rw [exec_bind]
  rcases m.exec p φ s with ⟨a | e | _, s', φ'⟩
  · simp only [reduceCtorEq, false_or, Run.mk.injEq, Outcome.ok.injEq]
    exact ⟨fun h => ⟨a, s', φ', ⟨rfl, rfl, rfl⟩, h⟩, by rintro ⟨_, _, _, ⟨rfl, rfl, rfl⟩, h⟩; exact h⟩
  · simp
  · simp

theorem exec_result (p : Prog S ε α) (φ : Faults ε) (s : σ) :
    m.exec p.result φ s =
      match m.exec p φ s with
      | ⟨.ok a, s', φ'⟩ => ⟨.ok (.ok a), s', φ'⟩
      | ⟨.err e, s', φ'⟩ => ⟨.ok (.error e), s', φ'⟩
      | ⟨.panic, s', φ'⟩ => ⟨.panic, s', φ'⟩ := by
  induction p generalizing φ s with
  | ret a => rfl
  | fail e => rfl
  | abort => rfl
  | call c next ih => simp only [Prog.result, exec_call, ih]

theorem exec_ask_ok {c : S.Cmd} {f : S.Reply c → Prog S ε α} {φ : Faults ε} {s s' : σ}
    {r : S.Reply c} (h : m.answer c (φ 0) s = (.ok r, s')) :
    m.exec ((Prog.ask c).bind f) φ s = m.exec (f r) φ.tail s' := by
  simp only [Prog.ask, Prog.call_bind, exec_call, h, Prog.ret_bind]

theorem exec_ask_error {c : S.Cmd} {f : S.Reply c → Prog S ε α} {φ : Faults ε} {s s' : σ} {e : ε}
    (h : m.answer c (φ 0) s = (.error e, s')) :
    m.exec ((Prog.ask c).bind f) φ s = ⟨.err e, s', φ.tail⟩ := by
  simp only [Prog.ask, Prog.call_bind, exec_call, h, Prog.fail_bind, exec_fail]

theorem exec_ask (c : S.Cmd) (φ : Faults ε) (s : σ) :
    m.exec (Prog.ask c) φ s =
      match m.answer c (φ 0) s with
      | (.ok r, s') => ⟨.ok r, s', φ.tail⟩
      | (.error e, s') => ⟨.err e, s', φ.tail⟩ := by
  rw [Prog.ask, exec_call]
  rcases m.answer c (φ 0) s with ⟨_ | _, _⟩ <;> rfl

theorem answer_state (c : S.Cmd) (fault : Option ε) (s : σ) :
    (m.answer c fault s).2 = s ∨ (m.answer c fault s).2 = (m.step c s).2 := by
  cases fault with
  | some e => exact .inl rfl
  | none => exact .inr rfl

/-- States that admissible calls lead to from an initial state. -/
def Reachable (ok : S.Cmd → Prop) (start : σ → Prop) (s : σ) : Prop :=
  ∃ s₀, start s₀ ∧ Relation.ReflTransGen (fun s s' => ∃ c, ok c ∧ s' = (m.step c s).2) s₀ s

variable {m} {ok : S.Cmd → Prop} {start : σ → Prop}

theorem Reachable.invariant {I : σ → Prop} (h₀ : ∀ s, start s → I s)
    (hstep : ∀ c s, ok c → I s → I (m.step c s).2) {s : σ} (h : m.Reachable ok start s) : I s := by
  obtain ⟨s₀, hs₀, hrun⟩ := h
  induction hrun with
  | refl => exact h₀ _ hs₀
  | tail _ hlast ih =>
    obtain ⟨c, hc, rfl⟩ := hlast
    exact hstep c _ hc ih

theorem Reachable.of_start {s : σ} (h : start s) : m.Reachable ok start s :=
  ⟨s, h, .refl⟩

theorem Reachable.tail {s : σ} (h : m.Reachable ok start s) {c : S.Cmd} (hc : ok c) :
    m.Reachable ok start (m.step c s).2 := by
  obtain ⟨s₀, hs₀, hrun⟩ := h
  exact ⟨s₀, hs₀, hrun.tail ⟨c, hc, rfl⟩⟩

/-- The state after a list of calls. -/
def after (m : Machine S ε σ) (calls : List S.Cmd) (s : σ) : σ :=
  calls.foldl (fun s c => (m.step c s).2) s

theorem Reachable.after {s : σ} (h : m.Reachable ok start s) {calls : List S.Cmd}
    (hc : ∀ c ∈ calls, ok c) : m.Reachable ok start (m.after calls s) := by
  induction calls generalizing s with
  | nil => exact h
  | cons c calls ih =>
    exact ih (h.tail (hc c List.mem_cons_self)) fun d hd => hc d (List.mem_cons_of_mem _ hd)

/-- What every admissible call keeps, a program of such calls keeps, whatever fails on the way. -/
theorem exec_keeps {I : σ → Prop} (hstep : ∀ c s, ok c → I s → I (m.step c s).2)
    {p : Prog S ε α} (hp : p.Calls ok) (φ : Faults ε) {s : σ} (h : I s) :
    I (m.exec p φ s).state := by
  induction p generalizing φ s with
  | ret a => exact h
  | fail e => exact h
  | abort => exact h
  | call c next ih =>
    rw [exec_call]
    apply ih _ (hp.2 _)
    rcases m.answer_state c (φ 0) s with hs | hs
    · rwa [hs]
    · rw [hs]; exact hstep c s hp.1 h

theorem Reachable.exec {p : Prog S ε α} (hp : p.Calls ok) (φ : Faults ε) {s : σ}
    (h : m.Reachable ok start s) : m.Reachable ok start (m.exec p φ s).state :=
  exec_keeps (fun _ _ hc hs => hs.tail hc) hp φ h

end Machine

end Interaction
