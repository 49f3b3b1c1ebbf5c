import Soika.Adapters.AccountsFrame
import Soika.Library.Histories

/-! # Stored challenges

A challenge is stored once under its handle, and the take that finds it deletes it. So in any
run the takes of a handle and its row, if there is one, are no more than its stores, and each
take is answered with what was stored.
-/

namespace Soika.Auth

open Interaction

/-- A call on the table of challenges. -/
def ChallengeCall : AuthCall → Bool
  | .write w => w.touchesChallenges
  | _ => false

def stores (handle : String) (e : Transition authCalls Error Server) : Bool :=
  match e with
  | ⟨_, .write (.createChallenge _ id _ _ _), .ok _, _⟩ => id = handle
  | _ => false

def takes (handle : String) (e : Transition authCalls Error Server) : Bool :=
  match e with
  | ⟨_, .write (.takeChallenge id _ _), .ok (some _), _⟩ => id = handle
  | _ => false

def Stored (B : AccountBackend) (c : AuthChallenge) (e : Transition authCalls Error Server) : Prop :=
  ∃ before after dropped expiresAt, c.expiresAt = B.ts expiresAt ∧
    e = ⟨before, .write (.createChallenge dropped c.id c.purpose c.state expiresAt), .ok (), after⟩

/-- The call has taken this row, which had not expired at that time. -/
def Took (B : AccountBackend) (c : AuthChallenge) (now : Timestamp)
    (e : Transition authCalls Error Server) : Prop :=
  ∃ before after, c ∈ before.db.authChallenges ∧ Accounts.expiredChallenge B now c = false ∧
    e = ⟨before, .write (.takeChallenge c.id c.purpose now), .ok (some c.state), after⟩

def challengesAt (d : Accounts) (handle : String) : ℕ :=
  d.authChallenges.countP fun c => c.id = handle

variable {H : Host} {B : AccountBackend} {handle : String} {s s' : Server}
  {e : Transition authCalls Error Server}

theorem stores_iff : stores handle e = true ↔ ∃ c, c.id = handle ∧ Stored B c e := by
  constructor
  · intro h
    unfold stores at h
    split at h
    · rename_i before dropped id purpose state expiresAt r after
      exact ⟨⟨id, purpose, state, B.ts expiresAt⟩, of_decide_eq_true h,
        before, after, dropped, expiresAt, rfl, rfl⟩
    · cases h
  · rintro ⟨c, rfl, before, after, dropped, expiresAt, -, rfl⟩
    exact decide_eq_true rfl

theorem Took.takes {c : AuthChallenge} {now : Timestamp} (h : Took B c now e) :
    takes c.id e = true := by
  obtain ⟨before, after, -, -, rfl⟩ := h
  exact decide_eq_true rfl

theorem took_of_sound {before after : Server} {id purpose state : String} {now : Timestamp}
    (h : Transition.Sound H.machine
      ⟨before, .write (.takeChallenge id purpose now), .ok (some state), after⟩) :
    ∃ c, c.id = id ∧ c.purpose = purpose ∧ c.state = state ∧ Took H.backend c now
        ⟨before, .write (.takeChallenge id purpose now), .ok (some state), after⟩ ∧
      after.db = { before.db with
        authChallenges := Table.remove AuthChallenge.id id before.db.authChallenges } := by
  obtain ⟨fault, hanswer⟩ := h
  cases fault with
  | some e => cases hanswer
  | none =>
    obtain ⟨d, hrun, hafter⟩ := Host.runWrite_eq_ok.mp hanswer
    obtain ⟨c, hc, hp, hexp, hs, hd⟩ := Accounts.takeChallenge_eq_some.mp (Except.ok.inj hrun)
    obtain ⟨hmem, hid⟩ := Table.lookup_eq_some_mem hc
    refine ⟨c, hid, hp, hs, ⟨before, after, hmem, hexp, ?_⟩, ?_⟩
    · subst hid hp hs
      rfl
    · exact (congrArg Server.db hafter).trans hd

theorem step_challenges {c : AuthCall} (hc : ChallengeCall c = false) (s : Server) :
    (H.machine.step c s).2.db.authChallenges = s.db.authChallenges := by
  cases c with
  | write w =>
    rcases Host.runWrite_state (H := H) w s with hs | ⟨r, d, hrun, hs⟩
    · rw [Host.machine_write, hs]
    · rw [Host.machine_write, hs]
      exact (Write.frame hrun).challenges hc
  | _ => rfl

structure Balanced (B : AccountBackend) (s : Server) (es : List (Transition authCalls Error Server)) :
    Prop where
  balance : ∀ handle, es.countP (takes handle) + challengesAt s.db handle ≤ es.countP (stores handle)
  issued : ∀ c ∈ s.db.authChallenges, ∃ e ∈ es, Stored B c e
  taken : ∀ e ∈ es, ∀ c now, Took B c now e → ∃ e' ∈ es, Stored B c e'

namespace Balanced

variable {es es' : List (Transition authCalls Error Server)}

theorem start (h : s.db.authChallenges = []) : Balanced B s [] where
  balance _ := by simp [challengesAt, h]
  issued c hc := by
    rw [h] at hc
    cases hc
  taken _ he := absurd he List.not_mem_nil

theorem perm (hperm : es.Perm es') (h : Balanced B s es) : Balanced B s es' where
  balance handle := by
    rw [← hperm.countP_eq, ← hperm.countP_eq]
    exact h.balance handle
  issued c hc := by
    obtain ⟨e, he, hstored⟩ := h.issued c hc
    exact ⟨e, hperm.mem_iff.mp he, hstored⟩
  taken e he c now htook := by
    obtain ⟨e', he', hstored⟩ := h.taken e (hperm.mem_iff.mpr he) c now htook
    exact ⟨e', hperm.mem_iff.mp he', hstored⟩

theorem same (h : Balanced B s es) (hs : s'.db.authChallenges = s.db.authChallenges) :
    Balanced B s' es where
  balance handle := by
    rw [challengesAt, hs]
    exact h.balance handle
  issued c hc := h.issued c (hs ▸ hc)
  taken := h.taken

theorem quiet (h : Balanced B s es) (hs : s'.db.authChallenges = s.db.authChallenges)
    (hquiet : ∀ handle, stores handle e = false ∧ takes handle e = false) :
    Balanced B s' (es ++ [e]) where
  balance handle := by
    rw [List.countP_append, List.countP_append, List.countP_singleton, List.countP_singleton,
      (hquiet handle).1, (hquiet handle).2]
    exact (h.same hs).balance handle
  issued c hc := by
    obtain ⟨e', he', hstored⟩ := h.issued c (hs ▸ hc)
    exact ⟨e', List.mem_append_left _ he', hstored⟩
  taken e' he' c now htook := by
    rcases List.mem_append.mp he' with he' | he'
    · obtain ⟨e'', he'', hstored⟩ := h.taken e' he' c now htook
      exact ⟨e'', List.mem_append_left _ he'', hstored⟩
    · obtain rfl := List.mem_singleton.mp he'
      have htakes := htook.takes
      rw [(hquiet c.id).2] at htakes
      cases htakes

theorem store {before after : Server} {dropped : List String} {id purpose state : String}
    {expiresAt : Timestamp} (h : Balanced H.backend before es)
    (hanswer : H.runWrite (.createChallenge dropped id purpose state expiresAt) before =
      (.ok (), after)) :
    Balanced H.backend after
      (es ++ [⟨before, .write (.createChallenge dropped id purpose state expiresAt), .ok (), after⟩]) := by
  obtain ⟨d, hrun, rfl⟩ := Host.runWrite_eq_ok.mp hanswer
  obtain ⟨kept, hkept, -, rfl⟩ := Accounts.createChallenge_eq_ok.mp hrun
  have hsub : kept.Sublist before.db.authChallenges := hkept ▸ List.filter_sublist
  constructor
  · intro handle
    have hbalance := h.balance handle
    have hle : kept.countP (fun c => c.id = handle) ≤ challengesAt before.db handle :=
      hsub.countP_le
    simp only [List.countP_append, List.countP_singleton, challengesAt, stores, takes]
    simp only [Bool.false_eq_true, if_false, Nat.add_zero, decide_eq_true_eq]
    split_ifs <;> omega
  · intro c hc
    rcases List.mem_append.mp hc with hc | hc
    · obtain ⟨e, he, hstored⟩ := h.issued c (hsub.subset hc)
      exact ⟨e, List.mem_append_left _ he, hstored⟩
    · obtain rfl := List.mem_singleton.mp hc
      exact ⟨_, List.mem_append_right _ (List.mem_singleton_self _), before, _, dropped, expiresAt,
        rfl, rfl⟩
  · intro e he c now htook
    rcases List.mem_append.mp he with he | he
    · obtain ⟨e', he', hstored⟩ := h.taken e he c now htook
      exact ⟨e', List.mem_append_left _ he', hstored⟩
    · obtain rfl := List.mem_singleton.mp he
      cases htook.takes

theorem take {before after : Server} {id purpose state : String} {now : Timestamp}
    (h : Balanced H.backend before es)
    (hsound : Transition.Sound H.machine
      ⟨before, .write (.takeChallenge id purpose now), .ok (some state), after⟩) :
    Balanced H.backend after
      (es ++ [⟨before, .write (.takeChallenge id purpose now), .ok (some state), after⟩]) := by
  obtain ⟨c, hid, -, -, htook, hafter⟩ := took_of_sound hsound
  have hrow : c ∈ before.db.authChallenges := by
    obtain ⟨_, _, hmem, -, he⟩ := htook
    cases he
    exact hmem
  constructor
  · intro handle
    have hbalance := h.balance handle
    have hsub : (Table.remove AuthChallenge.id id before.db.authChallenges).Sublist
        before.db.authChallenges := List.filter_sublist
    simp only [List.countP_append, List.countP_singleton, challengesAt, stores, takes, hafter]
    simp only [Bool.false_eq_true, if_false, Nat.add_zero, decide_eq_true_eq]
    by_cases hhandle : id = handle
    · have hzero : (Table.remove AuthChallenge.id id before.db.authChallenges).countP
          (fun c => c.id = handle) = 0 := by
        rw [List.countP_eq_zero]
        intro c hc
        simpa [hhandle] using (Table.mem_remove.mp hc).2
      have hone : 0 < challengesAt before.db handle :=
        List.countP_pos_iff.mpr ⟨c, hrow, decide_eq_true (hid.trans hhandle)⟩
      rw [if_pos hhandle, hzero]
      omega
    · have hle : (Table.remove AuthChallenge.id id before.db.authChallenges).countP
          (fun c => c.id = handle) ≤ challengesAt before.db handle := hsub.countP_le
      rw [if_neg hhandle]
      omega
  · intro c hc
    rw [hafter] at hc
    obtain ⟨e, he, hstored⟩ := h.issued c (Table.mem_remove.mp hc).1
    exact ⟨e, List.mem_append_left _ he, hstored⟩
  · intro e he c' now' htook'
    rcases List.mem_append.mp he with he | he
    · obtain ⟨e', he', hstored⟩ := h.taken e he c' now' htook'
      exact ⟨e', List.mem_append_left _ he', hstored⟩
    · obtain rfl := List.mem_singleton.mp he
      obtain ⟨_, _, hmem, -, he⟩ := htook'
      cases he
      obtain ⟨e', he', hstored⟩ := h.issued c' hmem
      exact ⟨e', List.mem_append_left _ he', hstored⟩

theorem record (h : Balanced H.backend e.before es) (hsound : e.Sound H.machine) :
    Balanced H.backend e.after (es ++ [e]) := by
  obtain ⟨before, c, answer, after⟩ := e
  obtain ⟨fault, hanswer⟩ := id hsound
  by_cases hc : ChallengeCall c = true
  · cases c with
    | write w =>
      cases w with
      | createChallenge dropped id purpose state expiresAt =>
        cases answer with
        | error e =>
          exact h.quiet (by rw [Host.answer_error rfl hanswer]) fun handle => ⟨rfl, rfl⟩
        | ok u =>
          cases fault with
          | some e => cases hanswer
          | none => exact h.store hanswer
      | takeChallenge id purpose now =>
        cases answer with
        | error e =>
          exact h.quiet (by rw [Host.answer_error rfl hanswer]) fun handle => ⟨rfl, rfl⟩
        | ok found =>
          cases found with
          | some state => exact h.take hsound
          | none =>
            cases fault with
            | some e => cases hanswer
            | none =>
              obtain ⟨d, hrun, hafter⟩ := Host.runWrite_eq_ok.mp hanswer
              have hdb : d = before.db := Accounts.takeChallenge_eq_none (Except.ok.inj hrun)
              refine h.quiet ?_ fun handle => ⟨rfl, rfl⟩
              exact (congrArg (fun s => s.db.authChallenges) hafter).trans
                (congrArg Accounts.authChallenges hdb)
      | _ => cases hc
    | _ => cases hc
  · have hc : ChallengeCall c = false := Bool.eq_false_iff.mpr hc
    refine h.quiet ?_ fun handle => ?_
    · have hafter := congrArg Prod.snd hanswer
      rcases H.machine.answer_state c fault before with hs | hs
      · exact congrArg (fun s => s.db.authChallenges) (hafter.symm.trans hs)
      · rw [show after = (H.machine.step c before).2 from hafter.symm.trans hs]
        exact step_challenges hc before
    · unfold stores takes
      constructor <;> split <;> first | rfl | (rename_i heq; cases heq; cases hc)

theorem run {α : Type} (progs : List (Prog authCalls Error α)) (hempty : s.db.authChallenges = [])
    {turns : List (Turn authCalls Error)}
    (hothers : ∀ c, Turn.other c ∈ turns → ChallengeCall c = false) :
    Balanced H.backend ((Pool.start progs s).run H.machine turns).state
      ((Pool.start progs s).run H.machine turns).events := by
  refine Pool.Along.events (C := fun _ turn => ∀ c, turn = .other c → ChallengeCall c = false)
    (fun _ _ _ => perm) (fun p turn e _ _ hsound hbefore h => ?_) (fun p c hc h => ?_)
    (.of_forall fun p turn hturn c hc => hothers c (hc ▸ hturn)) ?_
  · exact record (hbefore ▸ h) hsound
  · exact h.same (step_challenges (hc c rfl) p.state)
  · rw [Pool.events_start]
    exact start hempty

end Balanced

end Soika.Auth
