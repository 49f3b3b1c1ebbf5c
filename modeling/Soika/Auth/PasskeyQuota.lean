import Soika.Auth.SignatureCounters

/-! # The quota of passkeys

A registration counts the passkeys of its user, and inserts its own in a later step. The quota
holds as long as none is inserted in between.
-/

namespace Soika.Auth

open Interaction

variable {app : AppState} {W : Webauthn} {H : Host}

/-- When the turn inserts a passkey of the user, the user owns no more than the registration has
counted. -/
def CountStands (userId : Id) (p : PasskeyPool W) (turn : Turn authCalls Error) : Prop :=
  ∀ i new next history, turn = .thread i none → new.userId = userId →
    p.threads[i]? = some ⟨.call (.write (.createPasskey new)) next, history⟩ →
      ∀ owned, Answered (S := authCalls) history (.query (.passkeysOf userId)) owned →
        (p.state.db.passkeysOf userId).length ≤ owned.length

/-- A write of a passkey outside of the requests. -/
def Registration : AuthCall → Bool
  | .write (.createPasskey _) => true
  | _ => false

theorem length_passkeysOf_le {d d' : Accounts} (h : d'.passkeys.Sublist d.passkeys) (userId : Id) :
    (d'.passkeysOf userId).length ≤ (d.passkeysOf userId).length :=
  (h.filter _).length_le

theorem length_passkeysOf_touch (B : AccountBackend) (d : Accounts) (id : Id) (text : String)
    (usedAt : Timestamp) (userId : Id) :
    ((d.touchPasskey B id text usedAt).passkeysOf userId).length = (d.passkeysOf userId).length := by
  simp only [Accounts.passkeysOf, Accounts.touchPasskey, Table.select, Table.modify,
    List.filter_map, List.length_map]
  refine congrArg List.length (List.filter_congr fun row _ => ?_)
  simp only [Function.comp_apply]
  split <;> rfl

theorem length_passkeysOf_append {d d' : Accounts} {row : PasskeyRow}
    (h : d'.passkeys = d.passkeys ++ [row]) (userId : Id) :
    (d'.passkeysOf userId).length =
      (d.passkeysOf userId).length + if row.userId = userId then 1 else 0 := by
  rw [Accounts.passkeysOf, h, Table.select_append, List.length_append]
  split <;> simp [Table.select, *] <;> rfl

section Runs

variable {requests : List (PasskeyRequest W)} {config : PasskeySettings} {userId : Id}

/-- What a turn does to the number of passkeys: within the quota it stays there. -/
theorem quota_turn (hconfig : app.passkey = some config) {p : PasskeyPool W}
    {turn : Turn authCalls Error} (h : Sounds app H requests p) (hcount : CountStands userId p turn)
    (hother : ∀ c, turn = .other c → Registration c = false)
    (hquota : (p.state.db.passkeysOf userId).length ≤ config.maxPerUser) :
    ((p.turn H.machine turn).state.db.passkeysOf userId).length ≤ config.maxPerUser := by
  rcases p.turn_cases H.machine turn with hsame | ⟨c, rfl, hsame⟩ |
    ⟨i, fault, history, c, next, rfl, hi, -, hsame⟩
  · rwa [hsame]
  · have hc := hother c rfl
    rw [hsame]
    rcases Host.passkeys_cases (H := H) c none p.state with ⟨new, id, -, rfl, -⟩ |
      ⟨id, text, usedAt, -, -, hdb⟩ | hsub
    · cases hc
    · rw [Machine.answer_none] at hdb
      rwa [hdb, length_passkeysOf_touch]
    · exact (length_passkeysOf_le hsub userId).trans hquota
  · obtain ⟨req, hreq, hmay⟩ := h.may hi
    rw [hsame]
    rcases Host.passkeys_cases (H := H) c fault p.state with ⟨new, id, rfl, rfl, hrows⟩ |
      ⟨id, text, usedAt, -, -, hdb⟩ | hsub
    · rw [Pool.stepped, length_passkeysOf_append hrows]
      split
      · rename_i huser
        obtain rfl : new.userId = userId := huser
        cases req with
        | register cookies name credential =>
          obtain ⟨-, config', owned, hconfig', howned, hlt⟩ := hmay
          obtain rfl := Option.some.inj (hconfig.symm.trans hconfig')
          exact (hcount i new next history rfl rfl hi owned howned).trans_lt hlt
        | _ => exact hmay.elim
      · exact hquota
    · rwa [Pool.stepped, hdb, length_passkeysOf_touch]
    · exact (length_passkeysOf_le hsub userId).trans hquota

/-- The quota holds in every run in which no passkey of the user is inserted between the count of a
registration and its insert. -/
theorem quota_kept (hconfig : app.passkey = some config) {s : Server}
    (hquota : (s.db.passkeysOf userId).length ≤ config.maxPerUser)
    {turns : List (Turn authCalls Error)}
    (h : Pool.Along H.machine (CountStands userId) turns
      (Pool.start (requests.map fun req => req.prog app W) s))
    (hothers : ∀ c, Turn.other c ∈ turns → Registration c = false) :
    ((passkeyRun app H requests s turns).state.db.passkeysOf userId).length ≤ config.maxPerUser := by
  have hother : Pool.Along H.machine (fun _ turn => ∀ c, turn = .other c → Registration c = false)
      turns (Pool.start (requests.map fun req => req.prog app W) s) :=
    .of_forall fun p turn hturn c hc => hothers c (hc ▸ hturn)
  have hall := (h.and hother).and_keeps
    (K := Sounds app H requests) (fun p turn h => h.after_turn) (Sounds.start s)
  exact hall.keeps (J := fun p => (p.state.db.passkeysOf userId).length ≤ config.maxPerUser)
    (fun p turn hC hJ => quota_turn hconfig hC.1 hC.2.1 hC.2.2 hJ) hquota

end Runs

def countStands (userId : Id) (p : PasskeyPool W) (turn : Turn authCalls Error) : Bool :=
  match turn with
  | .other _ => true
  | .thread i _ => p.threads[i]?.all fun th =>
    match th.rest with
    | .call (.write (.createPasskey _)) _ => th.history.all fun e =>
      match e with
      | ⟨_, .query (.passkeysOf id), .ok owned, _⟩ =>
        id ≠ userId || (p.state.db.passkeysOf userId).length ≤ List.length (α := PasskeyRow) owned
      | _ => true
    | _ => true

theorem CountStands.of_countStands {userId : Id} {p : PasskeyPool W} {turn : Turn authCalls Error}
    (h : countStands userId p turn = true) : CountStands userId p turn := by
  rintro i new next history rfl - hi owned ⟨before, after, hmem⟩
  simp only [countStands, hi, Option.all_some, List.all_eq_true] at h
  simpa using h _ hmem

def Server.signedIn : Server :=
  { Server.new with
    db := { Accounts.new with
      users := [⟨0, "ann@example.com", "Ann", "hash", .member, .localAccount, .active⟩]
      sessions := [⟨"session", 0, .epoch, .atSecond 1000⟩]
      nextId := 1 } }

def signedInCookie : String :=
  "soika_session=" ++ Signing.spelled.signStr "secret".toUTF8 "session"

def twoRegistrations : List (PasskeyRequest .plain) :=
  [.registerOptions (some signedInCookie) ⟨"a", 1, []⟩,
    .registerOptions (some signedInCookie) ⟨"b", 2, []⟩,
    .register (some (signedInCookie ++ "; soika_passkey_reg=a")) none (1, 1),
    .register (some (signedInCookie ++ "; soika_passkey_reg=b")) none (2, 2)]

/-- One registration after the other: the second is refused. -/
theorem quota_kept_inTurn :
    ((passkeyRun (.withPasskeys 1) .plain twoRegistrations .signedIn
      ((List.replicate 7 0 ++ List.replicate 7 1 ++ List.replicate 7 2 ++ List.replicate 7 3).map
        fun i => .thread i none)).state.db.passkeysOf 0).length ≤ 1 := by
  have hconfig : (AppState.withPasskeys 1).passkey = some ⟨1, 300 * 1000000000⟩ := rfl
  refine quota_kept (W := .plain) hconfig (by decide) (.mono
    (C := fun p turn => countStands 0 p turn = true) (fun _ _ => .of_countStands) ?_) (by simp)
  decide +kernel

/-- Both have counted when the first of them inserts its passkey. -/
theorem quota_exceeded :
    (Server.signedIn.db.passkeysOf 0).length ≤ 1 ∧
      ((passkeyRun (.withPasskeys 1) .plain twoRegistrations .signedIn
        ((List.replicate 7 0 ++ List.replicate 7 1 ++ List.replicate 6 2 ++ List.replicate 6 3 ++
          [2, 3]).map fun i => .thread i none)).state.db.passkeysOf 0).length = 2 := by
  decide +kernel

end Soika.Auth
