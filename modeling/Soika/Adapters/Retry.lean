import Soika.Error

/-! # Retried writes

Bounded retries for writes that meet a transient lock conflict.
-/

namespace Soika

variable {σ α : Type}

/-- How writes are retried, and how many rows one statement of a sweep deletes. -/
structure WritePolicy where
  maxRetries : ℕ
  deleteBatch : ℕ
  deleteBatch_pos : 1 ≤ deleteBatch

/-- `retry_write` from attempt `n` on, with `retries` left: run the write until it does not end
in a lock conflict. -/
def retryFrom (what : String) (op : ℕ → σ → Except Error α × σ) :
    ℕ → ℕ → σ → Except Error α × σ
  | retries, n, s =>
    match op n s with
    | (.ok a, s') => (.ok a, s')
    | (.error e, s') =>
      if e.isBusy then
        match retries with
        | 0 => (.error (.dbBusy what e), s')
        | retries + 1 => retryFrom what op retries (n + 1) s'
      else (.error e, s')

def retryWrite (maxRetries : ℕ) (what : String) (op : ℕ → σ → Except Error α × σ) (s : σ) :
    Except Error α × σ :=
  retryFrom what op maxRetries 0 s

/-- A write that leaves the state alone when it fails is, with its retries, one successful attempt
on the same state, or it leaves the state alone. -/
theorem retryFrom_cases {what : String} {op : ℕ → σ → Except Error α × σ}
    (hop : ∀ n s e s', op n s = (.error e, s') → s' = s) (retries n : ℕ) (s : σ) :
    (∃ m a s', op m s = (.ok a, s') ∧ retryFrom what op retries n s = (.ok a, s')) ∨
      ∃ e, retryFrom what op retries n s = (.error e, s) := by
  induction retries generalizing n with
  | zero =>
    rw [retryFrom]
    rcases h : op n s with ⟨e | a, s'⟩
    · obtain rfl := hop n s e s' h
      cases hb : e.isBusy with
      | false => exact .inr ⟨e, by simp [hb]⟩
      | true => exact .inr ⟨.dbBusy what e, by simp [hb]⟩
    · exact .inl ⟨n, a, s', h, rfl⟩
  | succ retries ih =>
    rw [retryFrom]
    rcases h : op n s with ⟨e | a, s'⟩
    · obtain rfl := hop n s e s' h
      cases hb : e.isBusy with
      | false => exact .inr ⟨e, by simp [hb]⟩
      | true => simpa [hb] using ih (n + 1)
    · exact .inl ⟨n, a, s', h, rfl⟩

theorem retryFrom_eq_error {what : String} {op : ℕ → σ → Except Error α × σ}
    (hop : ∀ n s e s', op n s = (.error e, s') → s' = s) {retries n : ℕ} {s s' : σ} {e : Error}
    (h : retryFrom what op retries n s = (.error e, s')) :
    ∃ m e', op m s = (.error e', s) ∧ (e = e' ∨ e = .dbBusy what e') := by
  induction retries generalizing n with
  | zero =>
    rw [retryFrom] at h
    rcases hrun : op n s with ⟨e' | a, t⟩
    · obtain rfl := hop n s e' t hrun
      refine ⟨n, e', hrun, ?_⟩
      cases hb : e'.isBusy with
      | false =>
        simp only [hrun, hb, Bool.false_eq_true, if_false, Prod.mk.injEq, Except.error.injEq] at h
        exact .inl h.1.symm
      | true =>
        simp only [hrun, hb, if_true, Prod.mk.injEq, Except.error.injEq] at h
        exact .inr h.1.symm
    · simp [hrun] at h
  | succ retries ih =>
    rw [retryFrom] at h
    rcases hrun : op n s with ⟨e' | a, t⟩
    · obtain rfl := hop n s e' t hrun
      cases hb : e'.isBusy with
      | false =>
        simp only [hrun, hb, Bool.false_eq_true, if_false, Prod.mk.injEq, Except.error.injEq] at h
        exact ⟨n, e', hrun, .inl h.1.symm⟩
      | true =>
        simp only [hrun, hb, if_true] at h
        exact ih h
    · simp [hrun] at h

end Soika
