import Mathlib.Data.Nat.Init
import Soika.Adapters.Retry

/-! # Attempts of a retried write

A retried write makes its attempts one after another, while others go on with the store in
between. Which attempt is the last one, what the caller gets and what is left of the
store all follow from the outcomes of the attempts.
-/

namespace Soika

variable {σ α : Type}

/-- The loop of `retry_write`, which counts its attempts. -/
def retryLoop (maxRetries : ℕ) (what : String) (op : ℕ → σ → Except Error α × σ) (attempt : ℕ)
    (s : σ) : Except Error α × σ :=
  match op attempt s with
  | (.ok value, s') => (.ok value, s')
  | (.error err, s') =>
    if err.isBusy then
      if _h : maxRetries ≤ attempt then (.error (.dbBusy what err), s')
      else retryLoop maxRetries what op (attempt + 1) s'
    else (.error err, s')
termination_by maxRetries - attempt

/-- The retries that are left are those that the counter has not reached. -/
theorem retryLoop_eq {maxRetries : ℕ} {what : String} {op : ℕ → σ → Except Error α × σ}
    (retries attempt : ℕ) (s : σ) (h : attempt + retries = maxRetries) :
    retryLoop maxRetries what op attempt s = retryFrom what op retries attempt s := by
  induction retries generalizing attempt s with
  | zero =>
    rw [retryLoop, retryFrom]
    rcases op attempt s with ⟨e | a, s'⟩
    · simp [← h]
    · rfl
  | succ retries ih =>
    rw [retryLoop, retryFrom]
    rcases op attempt s with ⟨e | a, s'⟩
    · have hlt : ¬ maxRetries ≤ attempt := by omega
      simp only [hlt, dif_neg, not_false_eq_true, ih (attempt + 1) s' (by omega)]
    · rfl

theorem retryWrite_eq_loop (maxRetries : ℕ) (what : String) (op : ℕ → σ → Except Error α × σ)
    (s : σ) : retryWrite maxRetries what op s = retryLoop maxRetries what op 0 s :=
  (retryLoop_eq maxRetries 0 s (Nat.zero_add _)).symm

/-- The attempt ended in a lock conflict. -/
def EndsBusy : Except Error α → Prop
  | .ok _ => False
  | .error e => e.isBusy = true

/-- What the caller gets of the last attempt. -/
def surfaced (what : String) : Except Error α → Except Error α
  | .ok a => .ok a
  | .error e => .error (if e.isBusy then .dbBusy what e else e)

theorem endsBusy_surfaced {what : String} {outcome : Except Error α} :
    EndsBusy (surfaced what outcome) ↔ EndsBusy outcome := by
  cases outcome with
  | ok a => rfl
  | error e =>
    simp only [surfaced, EndsBusy]
    split
    · rename_i hbusy
      exact iff_of_true rfl hbusy
    · rfl

section Attempts

variable (op : ℕ → σ → Except Error α × σ)

def storeBefore (s : σ) : ℕ → σ
  | 0 => s
  | n + 1 => (op n (storeBefore s n)).2

def outcomeOf (s : σ) (n : ℕ) : Except Error α := (op n (storeBefore op s n)).1

/-- The write that also notes down how each attempt of it ends. -/
def noted (n : ℕ) (s : σ × List (Except Error α)) :
    Except Error α × σ × List (Except Error α) :=
  ((op n s.1).1, (op n s.1).2, s.2 ++ [(op n s.1).1])

/-- The write on a store that others change before each attempt. -/
def amid (others : ℕ → σ → σ) (n : ℕ) (s : σ) : Except Error α × σ := op n (others n s)

/-- What others have made of the store before an attempt of which nothing is left. -/
def meantime (others : ℕ → σ → σ) (s : σ) : ℕ → σ
  | 0 => s
  | n + 1 => others n (meantime others s n)

/-- An attempt that fails leaves the store alone. -/
def Atomic : Prop := ∀ n s e s', op n s = (.error e, s') → s' = s

/-- The attempts up to the last one: it is the first that does not end busy, unless the budget is
spent. -/
structure LastAttempt (maxRetries : ℕ) (s : σ) (last : ℕ) : Prop where
  bounded : last ≤ maxRetries
  before : ∀ n < last, EndsBusy (outcomeOf op s n)
  spent : EndsBusy (outcomeOf op s last) → last = maxRetries

variable {op} {s : σ}

/-- One attempt: another is made on what it left, or it is the last one. -/
theorem retryFrom_step (what : String) (retries n : ℕ) (s : σ) :
    (EndsBusy (op n s).1 ∧ 0 < retries ∧
        retryFrom what op retries n s = retryFrom what op (retries - 1) (n + 1) (op n s).2) ∨
      (EndsBusy (op n s).1 → retries = 0) ∧
        retryFrom what op retries n s = (surfaced what (op n s).1, (op n s).2) := by
  rw [retryFrom]
  rcases op n s with ⟨e | a, s'⟩
  · cases hb : e.isBusy with
    | false =>
      right
      simp [surfaced, EndsBusy, hb]
    | true =>
      cases retries with
      | zero =>
        right
        simp [surfaced, hb]
      | succ retries =>
        left
        simp [EndsBusy, hb]
  · right
    exact ⟨False.elim, rfl⟩

theorem retryFrom_lastAttempt (what : String) {maxRetries n : ℕ} (retries : ℕ)
    (hn : n + retries = maxRetries) (hbefore : ∀ m < n, EndsBusy (outcomeOf op s m)) :
    ∃ last, LastAttempt op maxRetries s last ∧
      retryFrom what op retries n (storeBefore op s n) =
        (surfaced what (outcomeOf op s last), storeBefore op s (last + 1)) := by
  induction retries generalizing n with
  | zero =>
    rcases retryFrom_step what 0 n (storeBefore op s n) with ⟨-, hpos, -⟩ | ⟨-, heq⟩
    · exact absurd hpos (Nat.lt_irrefl 0)
    · exact ⟨n, ⟨by omega, hbefore, fun _ => by omega⟩, heq⟩
  | succ retries ih =>
    rcases retryFrom_step what (retries + 1) n (storeBefore op s n) with
      ⟨hbusy, -, heq⟩ | ⟨hstop, heq⟩
    · rw [heq]
      apply ih (n := n + 1) (by omega)
      intro m hm
      rcases Nat.lt_succ_iff_lt_or_eq.mp hm with hm | rfl
      · exact hbefore m hm
      · exact hbusy
    · exact ⟨n, ⟨by omega, hbefore, fun hbusy => absurd (hstop hbusy) (Nat.succ_ne_zero _)⟩, heq⟩

variable (op s) in
theorem retryWrite_lastAttempt (what : String) (maxRetries : ℕ) :
    ∃ last, LastAttempt op maxRetries s last ∧
      retryWrite maxRetries what op s =
        (surfaced what (outcomeOf op s last), storeBefore op s (last + 1)) :=
  retryFrom_lastAttempt what maxRetries (Nat.zero_add _) fun _ hm => absurd hm (Nat.not_lt_zero _)

theorem LastAttempt.unique {maxRetries last last' : ℕ} (h : LastAttempt op maxRetries s last)
    (h' : LastAttempt op maxRetries s last') : last = last' := by
  have hle : ∀ {m m'}, LastAttempt op maxRetries s m → LastAttempt op maxRetries s m' → m ≤ m' := by
    intro m m' hm hm'
    apply Nat.not_lt.mp
    intro hlt
    have hmax := hm'.spent (hm.before m' hlt)
    have hbound := hm.bounded
    omega
  exact Nat.le_antisymm (hle h h') (hle h' h)

theorem storeBefore_noted (s : σ) (n : ℕ) :
    storeBefore (noted op) (s, []) n = (storeBefore op s n, (List.range n).map (outcomeOf op s)) := by
  induction n with
  | zero => rfl
  | succ n ih =>
    rw [storeBefore, ih, List.range_succ, List.map_append]
    rfl

theorem outcomeOf_noted (s : σ) (n : ℕ) : outcomeOf (noted op) (s, []) n = outcomeOf op s n := by
  rw [outcomeOf, storeBefore_noted]
  rfl

theorem lastAttempt_noted {maxRetries last : ℕ} :
    LastAttempt (noted op) maxRetries (s, []) last ↔ LastAttempt op maxRetries s last := by
  constructor
  · rintro ⟨hbounded, hbefore, hspent⟩
    simp only [outcomeOf_noted] at hbefore hspent
    exact ⟨hbounded, hbefore, hspent⟩
  · rintro ⟨hbounded, hbefore, hspent⟩
    constructor
    · exact hbounded
    · simpa only [outcomeOf_noted] using hbefore
    · simpa only [outcomeOf_noted] using hspent

theorem retryWrite_noted (what : String) {maxRetries last : ℕ}
    (hlast : LastAttempt op maxRetries s last) :
    (retryWrite maxRetries what (noted op) (s, [])).2.2 =
      (List.range (last + 1)).map (outcomeOf op s) := by
  obtain ⟨last', hlast', heq⟩ := retryWrite_lastAttempt (noted op) (s, []) what maxRetries
  obtain rfl := (lastAttempt_noted.mp hlast').unique hlast
  rw [heq, storeBefore_noted]

variable {others : ℕ → σ → σ}

/-- While the attempts end busy, only what others do is left. -/
theorem storeBefore_amid (hop : Atomic op) {n : ℕ}
    (hbusy : ∀ m < n, EndsBusy (outcomeOf (amid op others) s m)) :
    storeBefore (amid op others) s n = meantime others s n := by
  induction n with
  | zero => rfl
  | succ n ih =>
    have hn := hbusy n (Nat.lt_succ_self n)
    rw [outcomeOf, ih fun m hm => hbusy m (Nat.lt_succ_of_lt hm)] at hn
    rw [storeBefore, ih fun m hm => hbusy m (Nat.lt_succ_of_lt hm), meantime]
    rcases h : amid op others n (meantime others s n) with ⟨e | a, s'⟩
    · exact hop n _ e s' h
    · rw [h] at hn
      exact hn.elim

end Attempts

/-- A retried write makes its attempts up to the first that does not end busy, at most one more than
its retries, and returns the outcome of the last one, a lock conflict as an exhausted budget. Of
attempts that are atomic, nothing is left but the last one's effect, and that only if the
write succeeds. -/
theorem retryWrite_bounded (policy : WritePolicy) (what : String)
    (op : ℕ → σ → Except Error α × σ) (others : ℕ → σ → σ) (s : σ) :
    ∃ last, LastAttempt (amid op others) policy.maxRetries s last ∧
      (retryWrite policy.maxRetries what (noted (amid op others)) (s, [])).2.2 =
        (List.range (last + 1)).map (outcomeOf (amid op others) s) ∧
      (retryWrite policy.maxRetries what (amid op others) s).1 =
        surfaced what (outcomeOf (amid op others) s last) ∧
      (EndsBusy (outcomeOf (amid op others) s last) →
        EndsBusy (retryWrite policy.maxRetries what (amid op others) s).1) ∧
      (Atomic op →
        (∀ a s', retryWrite policy.maxRetries what (amid op others) s = (.ok a, s') →
          op last (meantime others s (last + 1)) = (.ok a, s')) ∧
        ∀ e s', retryWrite policy.maxRetries what (amid op others) s = (.error e, s') →
          s' = meantime others s (last + 1)) := by
  obtain ⟨last, hlast, heq⟩ := retryWrite_lastAttempt (amid op others) s what policy.maxRetries
  refine ⟨last, hlast, retryWrite_noted what hlast, by rw [heq], ?_, fun hop => ?_⟩
  · intro hbusy
    rw [heq]
    exact endsBusy_surfaced.mpr hbusy
  · have hcall : amid op others last (storeBefore (amid op others) s last) =
        op last (meantime others s (last + 1)) := by
      rw [storeBefore_amid hop hlast.before]
      rfl
    rw [heq, outcomeOf, storeBefore, hcall]
    rcases h : op last (meantime others s (last + 1)) with ⟨e | a, s'⟩
    · constructor
      · rintro a s'' ⟨⟩
      · rintro e' s'' ⟨⟩
        exact hop last _ e s' h
    · constructor
      · rintro a' s'' ⟨⟩
        rfl
      · rintro e' s'' ⟨⟩

end Soika
