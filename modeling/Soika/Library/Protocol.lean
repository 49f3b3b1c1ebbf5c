import Mathlib.Algebra.GroupWithZero.Nat
import Mathlib.Data.List.Basic
import Soika.Library.Pool

/-! # Protocols

A protocol follows a program in a local state: which calls the program may make there, and
which local state each of them leads to. When all threads of a pool obey one protocol, an
invariant that relates the shared state to the local states holds in every run as soon as
each call keeps it.
-/

namespace Interaction

variable {S : Signature} {ε σ τ α β : Type}

structure Protocol (S : Signature) (ε σ τ : Type) where
  may : τ → S.Cmd → Prop
  next : τ → Transition S ε σ → τ

/-- The local state after the calls of a history. -/
def Protocol.after (P : Protocol S ε σ τ) (t : τ) (h : List (Transition S ε σ)) : τ :=
  h.foldl P.next t

def Machine.transition (m : Machine S ε σ) (c : S.Cmd) (fault : Option ε) (s : σ) :
    Transition S ε σ :=
  ⟨s, c, (m.answer c fault s).1, (m.answer c fault s).2⟩

variable {m : Machine S ε σ} {P : Protocol S ε σ τ} {Q : τ → Outcome ε α → Prop} {t : τ}

@[simp] theorem Protocol.after_nil : P.after t ([] : List (Transition S ε σ)) = t := rfl

theorem Protocol.after_snoc (h : List (Transition S ε σ)) (e : Transition S ε σ) :
    P.after t (h ++ [e]) = P.next (P.after t h) e := by
  simp [after]

namespace Prog

/-- The program makes only calls that the protocol allows, and ends as `Q` says. -/
def Obeys (m : Machine S ε σ) (P : Protocol S ε σ τ) (Q : τ → Outcome ε α → Prop) :
    Prog S ε α → τ → Prop
  | ret a, t => Q t (.ok a)
  | fail e, t => Q t (.err e)
  | abort, t => Q t .panic
  | call c next, t => P.may t c ∧ ∀ fault s,
      (next (m.answer c fault s).1).Obeys m P Q (P.next t (m.transition c fault s))

/-- What a sequence has to do after its first program has ended. -/
def Goes (m : Machine S ε σ) (P : Protocol S ε σ τ) (Q : τ → Outcome ε β → Prop)
    (f : α → Prog S ε β) (t : τ) : Outcome ε α → Prop
  | .ok a => (f a).Obeys m P Q t
  | .err e => Q t (.err e)
  | .panic => Q t .panic

def Ends (done failed : τ → Prop) : τ → Outcome ε α → Prop
  | t, .ok _ => done t
  | t, _ => failed t

/-- What a program has to do that looks at the result of its first part. -/
def GoesOn (m : Machine S ε σ) (P : Protocol S ε σ τ) (Q : τ → Outcome ε β → Prop)
    (f : Except ε α → Prog S ε β) (t : τ) : Outcome ε α → Prop
  | .ok a => (f (.ok a)).Obeys m P Q t
  | .err e => (f (.error e)).Obeys m P Q t
  | .panic => Q t .panic

namespace Obeys

theorem mono {Q' : τ → Outcome ε α → Prop} {p : Prog S ε α} (hp : p.Obeys m P Q t)
    (hQ : ∀ t o, Q t o → Q' t o) : p.Obeys m P Q' t := by
  induction p generalizing t with
  | ret a => exact hQ _ _ hp
  | fail e => exact hQ _ _ hp
  | abort => exact hQ _ _ hp
  | call c next ih => exact ⟨hp.1, fun fault s => ih _ (hp.2 fault s)⟩

theorem bind {p : Prog S ε β} {f : β → Prog S ε α} (hp : p.Obeys m P (Goes m P Q f) t) :
    (p.bind f).Obeys m P Q t := by
  induction p generalizing t with
  | ret a => exact hp
  | fail e => exact hp
  | abort => exact hp
  | call c next ih => exact ⟨hp.1, fun fault s => ih _ (hp.2 fault s)⟩

theorem andThen {between done failed : τ → Prop} {p : Prog S ε β} {f : β → Prog S ε α}
    (hp : p.Obeys m P (Ends between failed) t)
    (hf : ∀ b t, between t → (f b).Obeys m P (Ends done failed) t) :
    (p.bind f).Obeys m P (Ends done failed) t := by
  refine bind (hp.mono fun t o h => ?_)
  cases o with
  | ok b => exact hf b t h
  | err e => exact h
  | panic => exact h

theorem result {p : Prog S ε β} {f : Except ε β → Prog S ε α}
    (hp : p.Obeys m P (GoesOn m P Q f) t) : (p.result.bind f).Obeys m P Q t := by
  induction p generalizing t with
  | ret a => exact hp
  | fail e => exact hp
  | abort => exact hp
  | call c next ih => exact ⟨hp.1, fun fault s => ih _ (hp.2 fault s)⟩

theorem resultThen {done failed : τ → Prop} {p : Prog S ε β} {f : Except ε β → Prog S ε α}
    (hp : p.Obeys m P (Ends done failed) t) (hok : ∀ b t, done t → (f (.ok b)).Obeys m P Q t)
    (herr : ∀ e t, failed t → (f (.error e)).Obeys m P Q t) (hpanic : ∀ t, failed t → Q t .panic) :
    (p.result.bind f).Obeys m P Q t := by
  refine result (hp.mono fun t o h => ?_)
  cases o with
  | ok b => exact hok b t h
  | err e => exact herr e t h
  | panic => exact hpanic t h

theorem call {c : S.Cmd} {next : Except ε (S.Reply c) → Prog S ε α} (hmay : P.may t c)
    (hok : ∀ s r s', m.step c s = (.ok r, s') →
      (next (.ok r)).Obeys m P Q (P.next t ⟨s, c, .ok r, s'⟩))
    (herr : ∀ fault s e s', m.answer c fault s = (.error e, s') →
      (next (.error e)).Obeys m P Q (P.next t ⟨s, c, .error e, s'⟩)) :
    (Prog.call c next).Obeys m P Q t := by
  refine ⟨hmay, fun fault s => ?_⟩
  rcases h : m.answer c fault s with ⟨e | r, s'⟩
  · simpa only [Machine.transition, h] using herr fault s e s' h
  · cases fault with
    | some e => cases h
    | none => simpa only [Machine.transition, h] using hok s r s' h

theorem ask {c : S.Cmd} {f : S.Reply c → Prog S ε α} (hmay : P.may t c)
    (hok : ∀ s r s', m.step c s = (.ok r, s') → (f r).Obeys m P Q (P.next t ⟨s, c, .ok r, s'⟩))
    (herr : ∀ fault s e s', m.answer c fault s = (.error e, s') →
      Q (P.next t ⟨s, c, .error e, s'⟩) (.err e)) : ((Prog.ask c).bind f).Obeys m P Q t :=
  call hmay hok herr

theorem ask_last {c : S.Cmd} {Q : τ → Outcome ε (S.Reply c) → Prop} (hmay : P.may t c)
    (hok : ∀ s r s', m.step c s = (.ok r, s') → Q (P.next t ⟨s, c, .ok r, s'⟩) (.ok r))
    (herr : ∀ fault s e s', m.answer c fault s = (.error e, s') →
      Q (P.next t ⟨s, c, .error e, s'⟩) (.err e)) : (Prog.ask c).Obeys m P Q t :=
  call hmay hok herr

theorem attempt {c : S.Cmd} {f : Except ε (S.Reply c) → Prog S ε α} (hmay : P.may t c)
    (hok : ∀ s r s', m.step c s = (.ok r, s') →
      (f (.ok r)).Obeys m P Q (P.next t ⟨s, c, .ok r, s'⟩))
    (herr : ∀ fault s e s', m.answer c fault s = (.error e, s') →
      (f (.error e)).Obeys m P Q (P.next t ⟨s, c, .error e, s'⟩)) :
    ((Prog.attempt c).bind f).Obeys m P Q t :=
  call hmay hok herr

/-- Calls that the protocol allows in some local states and that do not lead out of them. -/
theorem of_calls {ok : S.Cmd → Prop} {T : τ → Prop} (hmay : ∀ t c, T t → ok c → P.may t c)
    (hnext : ∀ t c fault s, T t → ok c → T (P.next t (m.transition c fault s))) {p : Prog S ε α}
    (hp : p.Calls ok) (ht : T t) : p.Obeys m P (fun t _ => T t) t := by
  induction p generalizing t with
  | ret a => exact ht
  | fail e => exact ht
  | abort => exact ht
  | call c next ih =>
    exact ⟨hmay t c ht hp.1, fun fault s => ih _ (hp.2 _) (hnext t c fault s ht hp.1)⟩

theorem ends_of_calls {ok : S.Cmd → Prop} {T done failed : τ → Prop}
    (hmay : ∀ t c, T t → ok c → P.may t c)
    (hnext : ∀ t c fault s, T t → ok c → T (P.next t (m.transition c fault s)))
    (hdone : ∀ t, T t → done t) (hfailed : ∀ t, T t → failed t) {p : Prog S ε α} (hp : p.Calls ok)
    (ht : T t) : p.Obeys m P (Ends done failed) t :=
  (of_calls hmay hnext hp ht).mono fun t o ht => by
    cases o with
    | ok a => exact hdone t ht
    | err e => exact hfailed t ht
    | panic => exact hfailed t ht

end Obeys

end Prog

/-- The local states of the threads, which all start in `t₀`. -/
def Pool.locals (P : Protocol S ε σ τ) (t₀ : τ) (p : Pool S ε σ α) : List τ :=
  p.threads.map fun th => P.after t₀ th.history

def Pool.Obeys (m : Machine S ε σ) (P : Protocol S ε σ τ) (Q : τ → Outcome ε α → Prop) (t₀ : τ)
    (p : Pool S ε σ α) : Prop :=
  ∀ th ∈ p.threads, th.rest.Obeys m P Q (P.after t₀ th.history)

/-- The invariant is kept by each call that the protocol allows, with the step of the local state. -/
def Protocol.Keeps (m : Machine S ε σ) (P : Protocol S ε σ τ) (J : σ → List τ → Prop) : Prop :=
  ∀ s ts i t c fault, ts[i]? = some t → P.may t c → J s ts →
    J (m.answer c fault s).2 (ts.set i (P.next t (m.transition c fault s)))

section Invariants

variable {t₀ : τ} {J : σ → List τ → Prop} {ok : S.Cmd → Prop}

theorem Pool.Obeys.start {progs : List (Prog S ε α)} (h : ∀ q ∈ progs, q.Obeys m P Q t₀) (s : σ) :
    (Pool.start progs s).Obeys m P Q t₀ := by
  intro th hth
  obtain ⟨q, hq, rfl⟩ := List.mem_map.mp hth
  exact h q hq

@[simp] theorem Pool.locals_start (progs : List (Prog S ε α)) (s : σ) :
    (Pool.start progs s).locals P t₀ = List.replicate progs.length t₀ := by
  simp only [locals, Pool.start, List.map_map]
  exact List.map_const' ..

theorem Pool.Obeys.turn_call {p : Pool S ε σ α} (h : p.Obeys m P Q t₀) {i : ℕ}
    {th : Thread S ε σ α} (hth : p.threads[i]? = some th) {c : S.Cmd}
    {next : Except ε (S.Reply c) → Prog S ε α} (hc : th.rest = .call c next) (fault : Option ε) :
    (p.turn m (.thread i fault)).Obeys m P Q t₀ ∧ P.may (P.after t₀ th.history) c ∧
      (p.turn m (.thread i fault)).state = (m.answer c fault p.state).2 ∧
      (p.turn m (.thread i fault)).locals P t₀ = (p.locals P t₀).set i
        (P.next (P.after t₀ th.history) (m.transition c fault p.state)) := by
  obtain ⟨rest, history⟩ := th
  obtain rfl : rest = .call c next := hc
  have hobeys := h _ (List.mem_of_getElem? hth)
  simp only [turn, hth, Thread.advance]
  refine ⟨?_, hobeys.1, trivial, ?_⟩
  · intro th' hth'
    rcases List.mem_or_eq_of_mem_set hth' with hth' | rfl
    · exact h th' hth'
    · rw [Protocol.after_snoc]
      exact hobeys.2 ..
  · rw [locals, List.map_set, Protocol.after_snoc]
    rfl

/-- One turn: a thread's call, a call of somebody else, or nothing. -/
theorem Pool.Obeys.turn (hown : P.Keeps m J) (hother : ∀ s ts c, ok c → J s ts → J (m.step c s).2 ts)
    {p : Pool S ε σ α} (hp : p.Obeys m P Q t₀) (hJ : J p.state (p.locals P t₀)) {turn : Turn S ε}
    (hturn : ∀ c, turn = .other c → ok c) :
    (p.turn m turn).Obeys m P Q t₀ ∧ J (p.turn m turn).state ((p.turn m turn).locals P t₀) := by
  cases turn with
  | other c => exact ⟨hp, hother _ _ c (hturn c rfl) hJ⟩
  | thread i fault =>
    cases hth : p.threads[i]? with
    | none =>
      simp only [Pool.turn, hth]
      exact ⟨hp, hJ⟩
    | some th =>
      cases hc : th.rest with
      | call c next =>
        obtain ⟨hobeys, hmay, hstate, hlocals⟩ := hp.turn_call hth hc fault
        refine ⟨hobeys, ?_⟩
        rw [hstate, hlocals]
        refine hown _ _ i _ c fault ?_ hmay hJ
        rw [locals, List.getElem?_map, hth, Option.map_some]
      | _ =>
        have hend : th.rest.ended = true := by rw [hc]; rfl
        have hsame : p.turn m (.thread i fault) = p := by
          obtain ⟨s, threads⟩ := p
          obtain ⟨hi, hi'⟩ := List.getElem?_eq_some_iff.mp hth
          simp only [Pool.turn, hth, Thread.advance_ended m hend]
          rw [← hi', List.set_getElem_self]
        rw [hsame]
        exact ⟨hp, hJ⟩

/-- What each call keeps, its effect on the local state of its thread included, every run keeps. -/
theorem Pool.Obeys.run (hown : P.Keeps m J) (hother : ∀ s ts c, ok c → J s ts → J (m.step c s).2 ts)
    {p : Pool S ε σ α} (hp : p.Obeys m P Q t₀) (hJ : J p.state (p.locals P t₀))
    {turns : List (Turn S ε)} (hturns : ∀ c, Turn.other c ∈ turns → ok c) :
    (p.run m turns).Obeys m P Q t₀ ∧ J (p.run m turns).state ((p.run m turns).locals P t₀) := by
  induction turns generalizing p with
  | nil => exact ⟨hp, hJ⟩
  | cons turn turns ih =>
    rw [Pool.run_cons]
    obtain ⟨hp', hJ'⟩ := hp.turn hown hother hJ
      fun c hc => hturns c (hc ▸ List.mem_cons_self)
    exact ih hp' hJ' fun c hc => hturns c (List.mem_cons_of_mem _ hc)

theorem Pool.Obeys.run_start (hown : P.Keeps m J)
    (hother : ∀ s ts c, ok c → J s ts → J (m.step c s).2 ts) {progs : List (Prog S ε α)}
    (hprogs : ∀ q ∈ progs, q.Obeys m P Q t₀) {s : σ} (hJ : J s (List.replicate progs.length t₀))
    {turns : List (Turn S ε)} (hturns : ∀ c, Turn.other c ∈ turns → ok c) :
    ((Pool.start progs s).run m turns).Obeys m P Q t₀ ∧
      J ((Pool.start progs s).run m turns).state
        (((Pool.start progs s).run m turns).locals P t₀) := by
  refine (Pool.Obeys.start hprogs s).run hown hother ?_ hturns
  rw [Pool.locals_start]
  exact hJ

end Invariants

/-- The local state says that every call so far had the property. -/
def Protocol.always (may : S.Cmd → Prop) (R : Transition S ε σ → Prop) :
    Protocol S ε σ Prop where
  may _ c := may c
  next t e := t ∧ R e

theorem Protocol.after_always {may : S.Cmd → Prop} {R : Transition S ε σ → Prop} {t : Prop}
    {h : List (Transition S ε σ)} :
    (Protocol.always may R).after t h ↔ t ∧ ∀ e ∈ h, R e := by
  induction h generalizing t with
  | nil => simp
  | cons e h ih =>
    change (Protocol.always may R).after (t ∧ R e) h ↔ _
    rw [ih, List.forall_mem_cons, and_assoc]

theorem Protocol.always_keeps {may : S.Cmd → Prop} {R : Transition S ε σ → Prop} {I : σ → Prop}
    (h : ∀ s c fault, may c → R (m.transition c fault s) → I s → I (m.answer c fault s).2) :
    (Protocol.always may R).Keeps m fun s ts => (∀ t ∈ ts, t) → I s := by
  intro s ts i t c fault hi hmay hI hall
  have hlt : i < ts.length := (List.getElem?_eq_some_iff.mp hi).1
  obtain ⟨ht, hR⟩ : t ∧ R (m.transition c fault s) := hall _ (List.mem_set hlt _)
  apply h s c fault hmay hR
  apply hI
  intro t' ht'
  obtain ⟨j, hj⟩ := List.mem_iff_getElem?.mp ht'
  by_cases hij : i = j
  · subst hij
    obtain rfl : t = t' := Option.some.inj (hi.symm.trans hj)
    exact ht
  · exact hall t' (List.mem_of_getElem? ((List.getElem?_set_ne hij).trans hj))

theorem Pool.run_always {may ok : S.Cmd → Prop} {R : Transition S ε σ → Prop} {I : σ → Prop}
    (hown : ∀ s c fault, may c → R (m.transition c fault s) → I s → I (m.answer c fault s).2)
    (hother : ∀ s c, ok c → I s → I (m.step c s).2) {Q : Prop → Outcome ε α → Prop}
    {progs : List (Prog S ε α)} (hprogs : ∀ q ∈ progs, q.Obeys m (Protocol.always may R) Q True)
    {s : σ} (hs : I s) {turns : List (Turn S ε)} (hturns : ∀ c, Turn.other c ∈ turns → ok c)
    (hall : ∀ th ∈ ((Pool.start progs s).run m turns).threads, ∀ e ∈ th.history, R e) :
    I ((Pool.start progs s).run m turns).state := by
  obtain ⟨-, hI⟩ := Pool.Obeys.run_start (Protocol.always_keeps hown)
    (fun s ts c hc h hts => hother s c hc (h hts)) hprogs (fun _ => hs) hturns
  apply hI
  intro t ht
  obtain ⟨th, hth, rfl⟩ := List.mem_map.mp ht
  exact Protocol.after_always.mpr ⟨trivial, hall th hth⟩

def Pool.tally (p : Pool S ε σ α) (f : Transition S ε σ → Bool) : ℕ :=
  (p.threads.map fun th => th.history.countP f).sum

theorem Pool.tally_eq (P : Protocol S ε σ τ) (t₀ : τ) (count : τ → ℕ)
    {f : Transition S ε σ → Bool} (hstart : count t₀ = 0)
    (hnext : ∀ t e, count (P.next t e) = count t + if f e then 1 else 0) (p : Pool S ε σ α) :
    p.tally f = ((p.locals P t₀).map count).sum := by
  have hafter : ∀ (h : List (Transition S ε σ)) t, count (P.after t h) = count t + h.countP f := by
    intro h
    induction h with
    | nil => exact fun _ => rfl
    | cons e h ih =>
      intro t
      rw [List.countP_cons, Nat.add_comm (h.countP f), ← Nat.add_assoc, ← hnext]
      exact ih _
  rw [tally, locals, List.map_map]
  refine congrArg List.sum (List.map_congr_left fun th _ => ?_)
  rw [Function.comp_apply, hafter, hstart, Nat.zero_add]

theorem sum_map_set {ts : List τ} {i : ℕ} {t : τ} (h : ts[i]? = some t) (t' : τ) (f : τ → ℕ) :
    ((ts.set i t').map f).sum + f t = (ts.map f).sum + f t' := by
  induction ts generalizing i with
  | nil => cases h
  | cons a ts ih =>
    cases i with
    | zero =>
      obtain rfl : a = t := Option.some.inj h
      simp only [List.set_cons_zero, List.map_cons, List.sum_cons]
      omega
    | succ i =>
      have := ih h
      simp only [List.set_cons_succ, List.map_cons, List.sum_cons]
      omega

theorem le_sum_map {ts : List τ} {t : τ} (h : t ∈ ts) (f : τ → ℕ) : f t ≤ (ts.map f).sum := by
  induction ts with
  | nil => cases h
  | cons a ts ih =>
    rw [List.map_cons, List.sum_cons]
    rcases List.mem_cons.mp h with rfl | h
    · exact Nat.le_add_right _ _
    · exact Nat.le_trans (ih h) (Nat.le_add_left _ _)

end Interaction
