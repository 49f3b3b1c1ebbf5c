import Mathlib.Data.List.Nodup
import Mathlib.Data.Nat.Notation

/-! # Transactions

A transaction is a sequence of statements. Each statement sees the state and the next
of a stream of worlds that the transaction does not control, and may fail; a failure
undoes all of them. Pre- and postconditions are followed through the statements. A loop
over items with distinct keys is described key by key.
-/

universe u

/-- Statements over a state `σ` in worlds `ω` that may fail with an `ε`. -/
def Transaction (ω : Type u) (ε σ α : Type) : Type u :=
  (ℕ → ω) → σ → Except ε (α × σ × (ℕ → ω))

namespace Transaction

variable {ω : Type u} {ε σ α β ι κ υ γ : Type}

def ret (a : α) : Transaction ω ε σ α := fun ws s => .ok (a, s, ws)

def bind (p : Transaction ω ε σ α) (f : α → Transaction ω ε σ β) : Transaction ω ε σ β :=
  fun ws s =>
    match p ws s with
    | .ok (a, s', ws') => f a ws' s'
    | .error e => .error e

instance : Monad (Transaction ω ε σ) where
  pure := ret
  bind := bind

theorem bind_assoc (p : Transaction ω ε σ α) (f : α → Transaction ω ε σ β)
    (g : β → Transaction ω ε σ γ) : p >>= f >>= g = p >>= fun a => f a >>= g := by
  funext ws s
  change Transaction.bind (Transaction.bind p f) g ws s =
    Transaction.bind p (fun a => Transaction.bind (f a) g) ws s
  unfold Transaction.bind
  rcases p ws s with e | ⟨a, s', ws'⟩ <;> rfl

def fail (e : ε) : Transaction ω ε σ α := fun _ _ => .error e

/-- The value of a computation that does not touch the state. -/
def ofExcept : Except ε α → Transaction ω ε σ α
  | .ok a => ret a
  | .error e => fail e

def statement (f : ω → σ → Except ε (α × σ)) : Transaction ω ε σ α := fun ws s =>
  match f (ws 0) s with
  | .ok (a, s') => .ok (a, s', fun n => ws (n + 1))
  | .error e => .error e

/-- A step of the program itself, which no world answers. -/
def modify (f : σ → σ) : Transaction ω ε σ Unit := fun ws s => .ok ((), f s, ws)

/-- A look at the state that no world answers. -/
def read (f : σ → α) : Transaction ω ε σ α := fun ws s => .ok (f s, s, ws)

/-- Run a transaction if a condition holds. -/
def when (c : Prop) [Decidable c] (p : Transaction ω ε σ Unit) : Transaction ω ε σ Unit :=
  if c then p else pure ()

/-- Run the body for each item in turn, with the value of the body before. -/
def fold (f : β → ι → Transaction ω ε σ β) : β → List ι → Transaction ω ε σ β
  | b, [] => pure b
  | b, x :: xs => do
    let b ← f b x
    fold f b xs

abbrev each (f : ι → Transaction ω ε σ Unit) (xs : List ι) : Transaction ω ε σ Unit :=
  fold (fun _ x => f x) () xs

/-- Repeat the body until it returns `false`, at most `rounds` times. -/
def repeatWhile (body : Transaction ω ε σ Bool) : ℕ → Transaction ω ε σ Unit
  | 0 => pure ()
  | rounds + 1 => do
    let again ← body
    if again then repeatWhile body rounds else pure ()

def commit (p : Transaction ω ε σ α) (ws : ℕ → ω) (s : σ) : Except ε α × σ :=
  match p ws s with
  | .ok (a, s', _) => (.ok a, s')
  | .error e => (.error e, s)

theorem commit_error {p : Transaction ω ε σ α} {ws : ℕ → ω} {s s' : σ} {e : ε}
    (h : p.commit ws s = (.error e, s')) : s' = s := by
  unfold commit at h
  split at h
  · cases h
  · exact (congrArg Prod.snd h).symm

/-- A regular end with `Q`, before worlds with `W`, or a failure with `R`. -/
def Ends (W : ω → Prop) (R : ε → Prop) (Q : α → σ → Prop) : Except ε (α × σ × (ℕ → ω)) → Prop
  | .ok (a, s, ws) => Q a s ∧ ∀ n, W (ws n)
  | .error e => R e

/-- From `s`, in worlds with `W`, the transaction returns with `Q` or fails with `R`. -/
def Ensures (W : ω → Prop) (R : ε → Prop) (p : Transaction ω ε σ α) (Q : α → σ → Prop)
    (s : σ) : Prop :=
  ∀ ws, (∀ n, W (ws n)) → Ends W R Q (p ws s)

variable {W : ω → Prop} {R : ε → Prop} {p : Transaction ω ε σ α} {Q : α → σ → Prop} {s : σ}

namespace Ensures

theorem ret {a : α} (h : Q a s) : Ensures W R (pure a) Q s := fun _ hws => ⟨h, hws⟩

theorem fail {e : ε} (h : R e) : Ensures W R (Transaction.fail e) Q s := fun _ _ => h

theorem bind {f : α → Transaction ω ε σ β} {Q' : β → σ → Prop} (hp : Ensures W R p Q s)
    (hf : ∀ a s', Q a s' → Ensures W R (f a) Q' s') : Ensures W R (p >>= f) Q' s := by
  intro ws hws
  have h := hp ws hws
  change Ends W R Q' (Transaction.bind p f ws s)
  unfold Transaction.bind
  rcases hrun : p ws s with e | ⟨a, s', ws'⟩ <;> rw [hrun] at h
  · exact h
  · exact hf a s' h.1 ws' h.2

theorem seq {f : α → Transaction ω ε σ β} {Q' : β → σ → Prop}
    (hp : Ensures W R p (fun a s' => Ensures W R (f a) Q' s') s) : Ensures W R (p >>= f) Q' s :=
  hp.bind fun _ _ h => h

theorem mono {Q' : α → σ → Prop} (hp : Ensures W R p Q s) (hQ : ∀ a s', Q a s' → Q' a s') :
    Ensures W R p Q' s := by
  intro ws hws
  have h := hp ws hws
  rcases hrun : p ws s with e | ⟨a, s', ws'⟩ <;> rw [hrun] at h
  · exact h
  · exact ⟨hQ a s' h.1, h.2⟩

theorem and {Q' : α → σ → Prop} (hp : Ensures W R p Q s) (hp' : Ensures W R p Q' s) :
    Ensures W R p (fun a s' => Q a s' ∧ Q' a s') s := by
  intro ws hws
  have h := hp ws hws
  have h' := hp' ws hws
  rcases hrun : p ws s with e | ⟨a, s', ws'⟩ <;> rw [hrun] at h h'
  · exact h
  · exact ⟨⟨h.1, h'.1⟩, h.2⟩

theorem statement {f : ω → σ → Except ε (α × σ)}
    (hok : ∀ w a s', W w → f w s = .ok (a, s') → Q a s')
    (herror : ∀ w e, W w → f w s = .error e → R e) :
    Ensures W R (Transaction.statement f) Q s := by
  intro ws hws
  unfold Transaction.statement
  rcases h : f (ws 0) s with e | ⟨a, s'⟩
  · exact herror _ e (hws 0) h
  · exact ⟨hok _ a s' (hws 0) h, fun n => hws (n + 1)⟩

theorem modify {f : σ → σ} {Q : Unit → σ → Prop} (h : Q () (f s)) :
    Ensures W R (Transaction.modify f) Q s := fun _ hws => ⟨h, hws⟩

theorem read {f : σ → α} (h : Q (f s) s) : Ensures W R (Transaction.read f) Q s :=
  fun _ hws => ⟨h, hws⟩

theorem when {c : Prop} [Decidable c] {p : Transaction ω ε σ Unit} {Q : Unit → σ → Prop}
    (hp : c → Ensures W R p Q s) (hskip : ¬ c → Q () s) :
    Ensures W R (Transaction.when c p) Q s := by
  unfold Transaction.when
  split
  · exact hp ‹c›
  · exact .ret (hskip ‹¬ c›)

theorem ofExcept {x : Except ε α} (hok : ∀ a, x = .ok a → Q a s)
    (herror : ∀ e, x = .error e → R e) : Ensures W R (Transaction.ofExcept x) Q s := by
  cases x with
  | ok a => exact .ret (hok a rfl)
  | error e => exact .fail (herror e rfl)

/-- A transaction that is committed has its postcondition; one that fails has changed nothing. -/
theorem commit (hp : Ensures W R p Q s) {ws : ℕ → ω} (hws : ∀ n, W (ws n)) :
    (∀ a s', p.commit ws s = (.ok a, s') → Q a s') ∧
      ∀ e s', p.commit ws s = (.error e, s') → R e := by
  have h := hp ws hws
  unfold Transaction.commit
  rcases hrun : p ws s with e | ⟨a, s', ws'⟩ <;> rw [hrun] at h
  · refine ⟨nofun, fun e' s' he => ?_⟩
    cases he
    exact h
  · refine ⟨fun a' s'' ha => ?_, nofun⟩
    cases ha
    exact h.1

/-- What holds of the value and of the items done so far is followed through the loop. -/
theorem foldValue {f : β → ι → Transaction ω ε σ β} {I : β → List ι → σ → Prop} {xs : List ι} {b : β}
    (hstart : I b [] s) (hstep : ∀ b before x after s, xs = before ++ x :: after → I b before s →
      Ensures W R (f b x) (fun b' s' => I b' (before ++ [x]) s') s) :
    Ensures W R (Transaction.fold f b xs) (fun b' s' => I b' xs s') s := by
  suffices h : ∀ before rest b s, xs = before ++ rest → I b before s →
      Ensures W R (Transaction.fold f b rest) (fun b' s' => I b' xs s') s from h [] xs b s rfl hstart
  intro before rest
  induction rest generalizing before with
  | nil =>
    intro b s hxs hs
    rw [hxs, List.append_nil]
    exact .ret hs
  | cons x rest ih =>
    intro b s hxs hs
    refine .bind (hstep b before x rest s hxs hs) fun b' s' hs' => ?_
    exact ih (before ++ [x]) b' s' (by rw [hxs, List.append_assoc]; rfl) hs'

theorem fold {f : β → ι → Transaction ω ε σ β} {I : List ι → σ → Prop} {xs : List ι} {b : β}
    (hstart : I [] s) (hstep : ∀ b before x after s, xs = before ++ x :: after → I before s →
      Ensures W R (f b x) (fun _ s' => I (before ++ [x]) s') s) :
    Ensures W R (fold f b xs) (fun _ s' => I xs s') s :=
  foldValue (I := fun _ before s => I before s) hstart hstep

/-- A loop that appends to a table one row for each item, under keys that the table and the other
items do not have; `put` is the state with given rows. -/
theorem appendEach {ρ : Type} (put : List ρ → σ) (row : ι → ρ) (key : ρ → κ)
    {f : ι → Transaction ω ε σ Unit} {xs : List ι} {rows : List ρ} (hkeys : (xs.map fun x => key (row x)).Nodup)
    (hrows : ∀ r ∈ rows, ∀ x ∈ xs, key r ≠ key (row x))
    (hstep : ∀ x ∈ xs, ∀ rows, (∀ r ∈ rows, key r ≠ key (row x)) →
      Ensures W R (f x) (fun _ s => s = put (rows ++ [row x])) (put rows)) :
    Ensures W R (each f xs) (fun _ s => s = put (rows ++ xs.map row)) (put rows) := by
  refine fold (I := fun before s => s = put (rows ++ before.map row)) (by simp) ?_
  rintro _ before x after _ hxs rfl
  have hx : x ∈ xs := by simp [hxs]
  have hnew : ∀ r ∈ rows ++ before.map row, key r ≠ key (row x) := by
    intro r hr
    rcases List.mem_append.mp hr with hr | hr
    · exact hrows r hr x hx
    · obtain ⟨y, hy, rfl⟩ := List.mem_map.mp hr
      rw [hxs, List.map_append, List.map_cons] at hkeys
      exact (List.nodup_append.mp hkeys).2.2 _ (List.mem_map_of_mem hy) _ (by simp)
  refine (hstep x hx _ hnew).mono ?_
  rintro _ _ rfl
  rw [List.map_append, List.append_assoc]
  rfl

theorem repeatWhile {body : Transaction ω ε σ Bool} {I : σ → Prop} {Done : σ → Prop}
    (measure : σ → ℕ) (hbody : ∀ s, I s → Ensures W R body (fun again s' => I s' ∧
      (again = true → measure s' < measure s) ∧ (again = false → Done s')) s)
    {rounds : ℕ} (hs : I s) (hrounds : measure s < rounds) :
    Ensures W R (repeatWhile body rounds) (fun _ s' => I s' ∧ Done s') s := by
  induction rounds generalizing s with
  | zero => exact absurd hrounds (Nat.not_lt_zero _)
  | succ rounds ih =>
    refine .bind (hbody s hs) fun again s' h => ?_
    obtain ⟨hI, hagain, hdone⟩ := h
    cases again with
    | false => exact .ret ⟨hI, hdone rfl⟩
    | true => exact ih hI (by have := hagain rfl; omega)

end Ensures

/-- One step of a loop over distinct keys: the value at `k` changes by `Post`, every other value
stays, and the log is only appended to. -/
structure Changes (view : σ → κ → υ) (log : σ → List γ) (k : κ) (Post : υ → υ → Prop)
    (entries : υ → List γ) (s s' : σ) : Prop where
  post : Post (view s k) (view s' k)
  others : ∀ l, l ≠ k → view s' l = view s l
  log : log s' = log s ++ entries (view s k)

/-- Many steps: the value at the key of each item has changed by its `Post`. -/
structure ChangesEach (view : σ → κ → υ) (log : σ → List γ) (key : ι → κ)
    (Post : ι → υ → υ → Prop) (entries : ι → υ → List γ) (xs : List ι) (s s' : σ) : Prop where
  post : ∀ x ∈ xs, Post x (view s (key x)) (view s' (key x))
  others : ∀ l, (∀ x ∈ xs, key x ≠ l) → view s' l = view s l
  log : log s' = log s ++ xs.flatMap fun x => entries x (view s (key x))

variable {view : σ → κ → υ} {log : σ → List γ} {key : ι → κ} {Post : ι → υ → υ → Prop}
  {entries : ι → υ → List γ}

theorem ChangesEach.nil (s : σ) : ChangesEach view log key Post entries [] s s :=
  ⟨nofun, fun _ _ => rfl, (List.append_nil _).symm⟩

theorem ChangesEach.snoc {xs : List ι} {x : ι} {s t t' : σ}
    (h : ChangesEach view log key Post entries xs s t) (hx : ∀ y ∈ xs, key y ≠ key x)
    (hstep : Changes view log (key x) (Post x) (entries x) t t') :
    ChangesEach view log key Post entries (xs ++ [x]) s t' := by
  have hkeep : view t (key x) = view s (key x) := h.others _ hx
  refine ⟨fun y hy => ?_, fun l hl => ?_, ?_⟩
  · rcases List.mem_append.mp hy with hy | hy
    · rw [hstep.others _ (hx y hy)]
      exact h.post y hy
    · obtain rfl := List.mem_singleton.mp hy
      exact hkeep ▸ hstep.post
  · rw [hstep.others l (hl x (by simp)).symm]
    exact h.others l fun y hy => hl y (by simp [hy])
  · rw [hstep.log, h.log, hkeep, List.flatMap_append, List.append_assoc]
    simp

/-- A loop over items with distinct keys, each of which changes the value at its own key. -/
theorem Ensures.foldKey (view : σ → κ → υ) (log : σ → List γ) (key : ι → κ)
    (Post : ι → υ → υ → Prop) (entries : ι → υ → List γ) {f : β → ι → Transaction ω ε σ β}
    {I : σ → Prop} {xs : List ι} {b : β} (hkeys : (xs.map key).Nodup) (hs : I s)
    (hstep : ∀ b, ∀ x ∈ xs, ∀ t, I t → view t (key x) = view s (key x) →
      Ensures W R (f b x)
        (fun _ t' => I t' ∧ Changes view log (key x) (Post x) (entries x) t t') t) :
    Ensures W R (Transaction.fold f b xs)
      (fun _ t => I t ∧ ChangesEach view log key Post entries xs s t) s := by
  refine Ensures.fold (I := fun before t => I t ∧ ChangesEach view log key Post entries before s t)
    ⟨hs, .nil s⟩ fun b before x after t hxs ht => ?_
  have hx : ∀ y ∈ before, key y ≠ key x := by
    intro y hy heq
    rw [hxs, List.map_append, List.map_cons] at hkeys
    exact (List.nodup_append.mp hkeys).2.2 _ (List.mem_map_of_mem hy) _ (by simp) heq
  refine (hstep b x (by simp [hxs]) t ht.1 (ht.2.others _ hx)).mono fun _ t' h => ?_
  exact ⟨h.1, ht.2.snoc hx h.2⟩

end Transaction
