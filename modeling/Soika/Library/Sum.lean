import Soika.Library.Histories

/-! # Programs over two stores

The calls of two signatures together, answered on one state by a machine for each of them. A
program of the first is a program of both, and what it obeys alone it obeys there.
-/

namespace Interaction

variable {S T : Signature} {ε σ τ τ' α β : Type}

abbrev Signature.sum (S T : Signature) : Signature where
  Cmd := S.Cmd ⊕ T.Cmd
  Reply := Sum.elim S.Reply T.Reply

def Prog.inl : Prog S ε α → Prog (S.sum T) ε α
  | .ret a => .ret a
  | .fail e => .fail e
  | .abort => .abort
  | .call c next => .call (.inl c) fun r => (next r).inl

def Machine.sum (m : Machine S ε σ) (n : Machine T ε σ) : Machine (S.sum T) ε σ where
  step
    | .inl c => m.step c
    | .inr c => n.step c

def Transition.inl (e : Transition S ε σ) : Transition (S.sum T) ε σ :=
  ⟨e.before, .inl e.call, e.answer, e.after⟩

variable {m : Machine S ε σ} {n : Machine T ε σ}

@[simp] theorem Machine.sum_step_inl (c : S.Cmd) (s : σ) : (m.sum n).step (.inl c) s = m.step c s :=
  rfl

@[simp] theorem Machine.sum_step_inr (c : T.Cmd) (s : σ) : (m.sum n).step (.inr c) s = n.step c s :=
  rfl

theorem Machine.sum_answer_inl (c : S.Cmd) (fault : Option ε) (s : σ) :
    (m.sum n).answer (.inl c) fault s = m.answer c fault s := by
  cases fault <;> rfl

theorem Machine.sum_transition_inl (c : S.Cmd) (fault : Option ε) (s : σ) :
    (m.sum n).transition (.inl c) fault s = (m.transition c fault s).inl := by
  cases fault <;> rfl

namespace Prog

theorem Obeys.inl {P : Protocol S ε σ τ} {P' : Protocol (S.sum T) ε σ τ'} {R : τ → τ' → Prop}
    (hmay : ∀ t t' c, R t t' → P.may t c → P'.may t' (.inl c))
    (hnext : ∀ t t' e, R t t' → R (P.next t e) (P'.next t' e.inl)) {Q : τ → Outcome ε α → Prop}
    {p : Prog S ε α} {t : τ} {t' : τ'} (hp : p.Obeys m P Q t) (hR : R t t') :
    (p.inl : Prog (S.sum T) ε α).Obeys (m.sum n) P' (fun t' o => ∃ t, R t t' ∧ Q t o) t' := by
  induction p generalizing t t' with
  | ret a => exact ⟨t, hR, hp⟩
  | fail e => exact ⟨t, hR, hp⟩
  | abort => exact ⟨t, hR, hp⟩
  | call c next ih =>
    refine ⟨hmay t t' c hR hp.1, fun fault s => ?_⟩
    rw [Machine.sum_transition_inl, Machine.sum_answer_inl]
    exact ih _ (hp.2 fault s) (hnext t t' _ hR)

/-- The same for histories: the program's own calls come after those that were there before. -/
theorem Obeys.inl_recording {may : List (Transition S ε σ) → S.Cmd → Prop}
    {may' : List (Transition (S.sum T) ε σ) → (S.sum T).Cmd → Prop}
    {Q : List (Transition S ε σ) → Outcome ε α → Prop} {p : Prog S ε α}
    (hp : p.Obeys m (.recording may) Q []) (before : List (Transition (S.sum T) ε σ))
    (hmay : ∀ h c, may h c → may' (before ++ h.map .inl) (.inl c)) :
    (p.inl : Prog (S.sum T) ε α).Obeys (m.sum n) (.recording may')
      (fun h' o => ∃ h, h' = before ++ h.map .inl ∧ Q h o) before := by
  have hcalls : ∀ h h' c, h' = before ++ h.map .inl → may h c → may' h' (.inl c) := by
    rintro h _ c rfl hc
    exact hmay h c hc
  have hnext : ∀ (h : List (Transition S ε σ)) h' e, h' = before ++ h.map .inl →
      h' ++ [e.inl] = before ++ (h ++ [e]).map .inl := by
    rintro h _ e rfl
    rw [List.map_append, List.append_assoc]
    rfl
  exact Obeys.inl hcalls hnext hp (List.append_nil before).symm

end Prog

theorem Answered.inl {h : List (Transition S ε σ)} {c : S.Cmd} {r : S.Reply c}
    (ha : Answered h c r) (before : List (Transition (S.sum T) ε σ)) :
    @Answered (S.sum T) ε σ (before ++ h.map .inl) (.inl c) r := by
  obtain ⟨s, s', hmem⟩ := ha
  exact ⟨s, s', List.mem_append_right _ (List.mem_map_of_mem hmem)⟩

end Interaction
