import Mathlib.Data.List.Forall2
import Soika.Library.Prog

/-! # Pools of programs

Several programs run on one store, a call at a time and in any order, among calls
that others make. Each of them keeps the history of its own calls, so what it does
is a path through its program, whatever the others do in between.
-/

namespace Interaction

variable {S : Signature} {ε α σ : Type}

/-- One call: the state it found, its answer and the state it left. -/
structure Transition (S : Signature) (ε σ : Type) where
  before : σ
  call : S.Cmd
  answer : Except ε (S.Reply call)
  after : σ

def Transition.Sound (m : Machine S ε σ) (e : Transition S ε σ) : Prop :=
  ∃ fault, m.answer e.call fault e.before = (e.answer, e.after)

namespace Prog

inductive Path : Prog S ε α → List (Transition S ε σ) → Prog S ε α → Prop
  | nil (p : Prog S ε α) : Path p [] p
  | cons {c : S.Cmd} {next : Except ε (S.Reply c) → Prog S ε α} {r : Except ε (S.Reply c)}
      {before after : σ} {h : List (Transition S ε σ)} {q : Prog S ε α} (hp : Path (next r) h q) :
      Path (call c next) (⟨before, c, r, after⟩ :: h) q

theorem Path.snoc {p : Prog S ε α} {c : S.Cmd} {next : Except ε (S.Reply c) → Prog S ε α}
    {h : List (Transition S ε σ)} (hp : p.Path h (call c next)) (s : σ)
    (r : Except ε (S.Reply c)) (s' : σ) : p.Path (h ++ [⟨s, c, r, s'⟩]) (next r) := by
  generalize hq : call c next = q at hp
  induction hp with
  | nil p =>
    subst hq
    exact .cons (.nil _)
  | cons _ ih => exact .cons (ih hq)

theorem Path.of_ret {a : α} {h : List (Transition S ε σ)} {q : Prog S ε α}
    (hp : (ret a : Prog S ε α).Path h q) : h = [] ∧ q = ret a := by
  cases hp
  exact ⟨rfl, rfl⟩

theorem Path.of_fail {e : ε} {h : List (Transition S ε σ)} {q : Prog S ε α}
    (hp : (fail e : Prog S ε α).Path h q) : h = [] ∧ q = fail e := by
  cases hp
  exact ⟨rfl, rfl⟩

theorem Path.of_abort {h : List (Transition S ε σ)} {q : Prog S ε α}
    (hp : (abort : Prog S ε α).Path h q) : h = [] ∧ q = abort := by
  cases hp
  exact ⟨rfl, rfl⟩

/-- A program that asks has not asked yet, has failed with the error, or goes on with the reply. -/
theorem Path.of_ask_bind {β : Type} {c : S.Cmd} {f : S.Reply c → Prog S ε β}
    {h : List (Transition S ε σ)} {q : Prog S ε β} (hp : ((ask c).bind f).Path h q) :
    h = [] ∧ q = (ask c).bind f ∨
      (∃ before e after, h = [⟨before, c, .error e, after⟩] ∧ q = fail e) ∨
      ∃ before r after h', h = ⟨before, c, .ok r, after⟩ :: h' ∧ (f r).Path h' q := by
  cases hp with
  | nil => exact .inl ⟨rfl, rfl⟩
  | @cons _ _ r before after h q hp =>
    cases r with
    | error e =>
      obtain ⟨rfl, rfl⟩ := hp.of_fail
      exact .inr (.inl ⟨before, e, after, rfl, rfl⟩)
    | ok r => exact .inr (.inr ⟨before, r, after, h, rfl, hp⟩)

end Prog

/-- A program under way: what is left of it, and the calls it has made. -/
structure Thread (S : Signature) (ε σ α : Type) where
  rest : Prog S ε α
  history : List (Transition S ε σ)

namespace Thread

def start (p : Prog S ε α) : Thread S ε σ α := ⟨p, []⟩

/-- The thread has made no call yet, or has made its last. -/
def Settled (t : Thread S ε σ α) : Prop := t.history.isEmpty = true ∨ t.rest.ended = true

instance (t : Thread S ε σ α) : Decidable t.Settled := inferInstanceAs (Decidable (_ ∨ _))

def advance (m : Machine S ε σ) (fault : Option ε) (t : Thread S ε σ α) (s : σ) :
    Thread S ε σ α × σ :=
  match t.rest with
  | .call c next =>
    (⟨next (m.answer c fault s).1,
      t.history ++ [⟨s, c, (m.answer c fault s).1, (m.answer c fault s).2⟩]⟩,
      (m.answer c fault s).2)
  | _ => (t, s)

/-- The next call of a thread that asks: it fails with the error or goes on with the reply. -/
theorem advance_ask {β : Type} (m : Machine S ε σ) (c : S.Cmd) (f : S.Reply c → Prog S ε β)
    (h : List (Transition S ε σ)) (fault : Option ε) (s : σ) :
    (⟨(Prog.ask c).bind f, h⟩ : Thread S ε σ β).advance m fault s =
      match m.answer c fault s with
      | (.ok r, s') => (⟨f r, h ++ [⟨s, c, .ok r, s'⟩]⟩, s')
      | (.error e, s') => (⟨.fail e, h ++ [⟨s, c, .error e, s'⟩]⟩, s') := by
  simp only [advance, Prog.ask, Prog.call_bind]
  rcases m.answer c fault s with ⟨_ | _, _⟩ <;> rfl

theorem advance_ended (m : Machine S ε σ) {t : Thread S ε σ α} (ht : t.rest.ended = true)
    (fault : Option ε) (s : σ) : t.advance m fault s = (t, s) := by
  obtain ⟨rest, h⟩ := t
  cases rest with
  | call c next => cases ht
  | _ => rfl

end Thread

structure Pool (S : Signature) (ε σ α : Type) where
  state : σ
  threads : List (Thread S ε σ α)

/-- Whose turn it is: a thread, whose call may fail on its way, or somebody else. -/
inductive Turn (S : Signature) (ε : Type) where
  | thread (i : ℕ) (fault : Option ε)
  | other (c : S.Cmd)

/-- The error that a turn fails with before its call reaches the store. -/
def Turn.fault : Turn S ε → Option ε
  | thread _ fault => fault
  | other _ => none

namespace Pool

def calling (p : Pool S ε σ α) : Turn S ε → Option S.Cmd
  | .other c => some c
  | .thread i _ => p.threads[i]?.bind fun t =>
    match t.rest with
    | .call c _ => some c
    | _ => none

def start (progs : List (Prog S ε α)) (s : σ) : Pool S ε σ α := ⟨s, progs.map Thread.start⟩

def turn (m : Machine S ε σ) (p : Pool S ε σ α) : Turn S ε → Pool S ε σ α
  | .thread i fault =>
    match p.threads[i]? with
    | some t => ⟨(t.advance m fault p.state).2, p.threads.set i (t.advance m fault p.state).1⟩
    | none => p
  | .other c => ⟨(m.step c p.state).2, p.threads⟩

/-- A run: the turns one after the other. -/
def run (m : Machine S ε σ) (turns : List (Turn S ε)) (p : Pool S ε σ α) : Pool S ε σ α :=
  turns.foldl (turn m) p

@[simp] theorem run_nil (m : Machine S ε σ) (p : Pool S ε σ α) : run m [] p = p := rfl

@[simp] theorem run_cons (m : Machine S ε σ) (t : Turn S ε) (turns : List (Turn S ε))
    (p : Pool S ε σ α) : run m (t :: turns) p = run m turns (p.turn m t) := rfl

theorem turn_single (m : Machine S ε σ) (s : σ) (t : Thread S ε σ α) (fault : Option ε) :
    (⟨s, [t]⟩ : Pool S ε σ α).turn m (.thread 0 fault) =
      ⟨(t.advance m fault s).2, [(t.advance m fault s).1]⟩ := rfl

theorem run_single_ended (m : Machine S ε σ) {t : Thread S ε σ α} (ht : t.rest.ended = true)
    (faults : List (Option ε)) (s : σ) :
    (⟨s, [t]⟩ : Pool S ε σ α).run m (faults.map (.thread 0)) = ⟨s, [t]⟩ := by
  induction faults with
  | nil => rfl
  | cons fault faults ih =>
    rwa [List.map_cons, run_cons, turn_single, Thread.advance_ended m ht]

end Pool

structure Thread.Sound (m : Machine S ε σ) (I : σ → Prop) (p : Prog S ε α)
    (t : Thread S ε σ α) : Prop where
  path : p.Path t.history t.rest
  calls : ∀ e ∈ t.history, I e.before ∧ e.Sound m

theorem forall₂_set {ι κ : Type} {R : ι → κ → Prop} {as : List ι} {bs : List κ}
    (h : List.Forall₂ R as bs) {i : ℕ} {b b' : κ} (hb : bs[i]? = some b)
    (hR : ∀ a, R a b → R a b') : List.Forall₂ R as (bs.set i b') := by
  induction h generalizing i with
  | nil => cases hb
  | cons hab htail ih =>
    cases i with
    | zero =>
      obtain rfl : _ = b := Option.some.inj hb
      exact .cons (hR _ hab) htail
    | succ i => exact .cons hab (ih hb)

section Invariants

variable {m : Machine S ε σ} {I : σ → Prop}

theorem Machine.answer_keeps (hstep : ∀ c s, I s → I (m.step c s).2) (c : S.Cmd)
    (fault : Option ε) {s : σ} (h : I s) : I (m.answer c fault s).2 := by
  rcases m.answer_state c fault s with hs | hs
  · rwa [hs]
  · rw [hs]; exact hstep c s h

theorem Thread.Sound.advance {p : Prog S ε α} {t : Thread S ε σ α} (ht : t.Sound m I p)
    (fault : Option ε) {s : σ} (h : I s) : (t.advance m fault s).1.Sound m I p := by
  obtain ⟨rest, history⟩ := t
  cases rest with
  | call c next =>
    refine ⟨ht.path.snoc s _ _, fun e he => ?_⟩
    rcases List.mem_append.mp he with he | he
    · exact ht.calls e he
    · obtain rfl := List.mem_singleton.mp he
      exact ⟨h, fault, rfl⟩
  | _ => exact ht

theorem Thread.advance_keeps (hstep : ∀ c s, I s → I (m.step c s).2) (t : Thread S ε σ α)
    (fault : Option ε) {s : σ} (h : I s) : I (t.advance m fault s).2 := by
  obtain ⟨rest, history⟩ := t
  cases rest with
  | call c next => exact m.answer_keeps hstep c fault h
  | _ => exact h

theorem Pool.run_sound (hstep : ∀ c s, I s → I (m.step c s).2) {progs : List (Prog S ε α)}
    {p : Pool S ε σ α} (h : I p.state) (hp : List.Forall₂ (Thread.Sound m I) progs p.threads)
    (turns : List (Turn S ε)) :
    I (p.run m turns).state ∧ List.Forall₂ (Thread.Sound m I) progs (p.run m turns).threads := by
  induction turns generalizing p with
  | nil => exact ⟨h, hp⟩
  | cons turn turns ih =>
    rw [Pool.run_cons]
    cases turn with
    | other c => exact ih (hstep c _ h) hp
    | thread i fault =>
      cases ht : p.threads[i]? with
      | none => simpa only [Pool.turn, ht] using ih h hp
      | some t =>
        simp only [Pool.turn, ht]
        exact ih (t.advance_keeps hstep fault h)
          (forall₂_set hp ht fun _ hsound => hsound.advance fault h)

theorem exists_of_forall₂_mem {ι κ : Type} {R : ι → κ → Prop} {as : List ι} {bs : List κ}
    (h : List.Forall₂ R as bs) {b : κ} (hb : b ∈ bs) : ∃ a ∈ as, R a b := by
  induction h with
  | nil => cases hb
  | cons hab _ ih =>
    rcases List.mem_cons.mp hb with rfl | hb
    · exact ⟨_, List.mem_cons_self, hab⟩
    · obtain ⟨a, ha, hR⟩ := ih hb
      exact ⟨a, List.mem_cons_of_mem _ ha, hR⟩

theorem Pool.start_sound (progs : List (Prog S ε α)) (s : σ) :
    List.Forall₂ (Thread.Sound m I) progs (Pool.start progs s).threads := by
  induction progs with
  | nil => exact .nil
  | cons p progs ih => exact .cons ⟨.nil p, nofun⟩ ih

end Invariants

end Interaction
