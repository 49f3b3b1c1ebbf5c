import Soika.Auth.Challenges
import Soika.Auth.PasskeyCalls

/-! # Ceremonies

A ceremony takes two requests: one stores a challenge, another takes it and verifies what the
authenticator made of it. However the requests interleave, a challenge leads to one completion
at most, of the ceremony that it was stored for.
-/

namespace Soika.Auth

open Interaction

/-- `serde_json` reads what it has written. -/
def Codec.Lawful {α : Type} (codec : Codec α) : Prop :=
  ∀ a text, codec.toStr a = .ok text → codec.fromStr text = .ok a

/-- Base64 is decoded to what was encoded, and has no dot. -/
structure Signing.Lawful (S : Signing) : Prop where
  decode_encode : ∀ bytes, S.decode (S.encode bytes) = some bytes
  no_dot : ∀ bytes, '.' ∉ (S.encode bytes).toList

theorem findText_append {c : Char} {before : List Char} (hc : c ∉ before) (after : List Char) :
    findText [c] (before ++ c :: after) = some before.length := by
  induction before with
  | nil => simp [findText]
  | cons d before ih =>
    have hd : ¬ [c].isPrefixOf (d :: (before ++ c :: after)) = true := by
      simpa using fun hcd : c = d => hc (hcd ▸ List.mem_cons_self)
    rw [List.cons_append, findText, if_neg hd, ih fun h => hc (List.mem_cons_of_mem d h)]
    rfl

theorem splitOnce_append {c : Char} {before : String} (hc : c ∉ before.toList) (after : String) :
    splitOnce c (before ++ String.singleton c ++ after) = some (before, after) := by
  have htext : (before ++ String.singleton c ++ after).toList =
      before.toList ++ c :: after.toList := by
    rw [String.toList_append, String.toList_append, String.toList_singleton, List.append_assoc]
    rfl
  rw [splitOnce, cutText, htext, findText_append hc]
  simp only [Option.map_some, List.take_left, List.length_singleton, String.ofList_toList]
  rw [List.drop_length_add_append, List.drop_succ_cons, List.drop_zero, String.ofList_toList]

theorem Signing.verifyStr_signStr {S : Signing} (hS : S.Lawful) (secret : ByteArray)
    (text : String) : S.verifyStr secret (S.signStr secret text) = .ok text := by
  refine verifyStr_eq_ok.mpr ⟨text.toUTF8, verify_eq_ok.mpr ⟨S.encode text.toUTF8, _,
    splitOnce_append (hS.no_dot _) _, hS.decode_encode _, hS.decode_encode _⟩, ?_⟩
  rw [String.fromUTF8?, String.toUTF8_eq_toByteArray, dif_pos text.isValidUTF8]
  rfl

section Payload

variable {app : AppState} {α : Type} {codec : Codec (ChallengePayload α)}

theorem decodeChallenge_encodeChallenge (hsigning : app.signing.Lawful) (hcodec : codec.Lawful)
    {state : α} {userId : Option Id} {nowUnix ttlSecs now : ℤ} {signed : String}
    {payload : ChallengePayload α}
    (hsigned : encodeChallenge app codec state userId nowUnix ttlSecs = .ok signed)
    (hdecode : decodeChallenge app codec signed now = .ok payload) :
    payload = ⟨state, userId, nowUnix + ttlSecs⟩ := by
  unfold encodeChallenge at hsigned
  split at hsigned
  · cases hsigned
  · rename_i json hjson
    obtain rfl := Except.ok.inj hsigned
    simp only [decodeChallenge, Signing.verifyStr_signStr hsigning, hcodec _ _ hjson] at hdecode
    split at hdecode
    · cases hdecode
    · exact (Except.ok.inj hdecode).symm

end Payload

def storesChallenge : AuthCall → Bool
  | .write (.createChallenge _ _ _ _ _) => true
  | _ => false

section Stores

variable {app : AppState} {W : Webauthn} {α : Type}

theorem atMost_zero {p : Prog authCalls Error α} (hp : p.Calls (Writes fun _ => False)) :
    p.AtMost storesChallenge 0 := by
  refine .of_calls (fun c hc => ?_) hp
  cases c with
  | write w => exact hc.elim
  | _ => rfl

theorem orAbort_atMost (x : Option α) : (Prog.orAbort x : Prog authCalls Error α).AtMost
    storesChallenge 0 := by
  cases x <;> trivial

theorem challengeCookie_atMost {codec : Codec (ChallengePayload α)} {config : PasskeySettings}
    {name : String} {ceremony : α} {userId : Option Id} {drawn : CeremonyDraw} :
    (challengeCookie app codec config name ceremony userId drawn).AtMost storesChallenge 1 := by
  unfold challengeCookie
  refine Prog.AtMost.bind (n := 0) (k := 1) (atMost_zero (get_calls _)) fun now => ?_
  refine Prog.AtMost.bind (n := 0) (k := 1) (atMost_zero (lift_calls _)) fun signed => ?_
  refine Prog.AtMost.bind (n := 0) (k := 1) (atMost_zero (get_calls _)) fun now' => ?_
  refine Prog.AtMost.bind (n := 0) (k := 1) (orAbort_atMost _) fun ttl => ?_
  refine Prog.AtMost.bind (n := 0) (k := 1) (orAbort_atMost _) fun expiresAt => ?_
  exact Prog.AtMost.bind (n := 1) (k := 0) (.ask _) fun _ => trivial

theorem loginOptions_atMost (ip : String) (limited : Option ℕ) (drawn : CeremonyDraw) :
    (loginOptions app W ip limited drawn).AtMost storesChallenge 1 := by
  unfold loginOptions
  refine Prog.AtMost.bind (n := 0) (k := 1) (atMost_zero (lift_calls _)) fun config => ?_
  cases limited with
  | some seconds => trivial
  | none =>
    refine Prog.AtMost.bind (n := 0) (k := 1) (atMost_zero (guard_calls _)) fun decision => ?_
    split
    · trivial
    · refine Prog.AtMost.bind (n := 0) (k := 1) (atMost_zero (lift_calls _)) fun started => ?_
      exact Prog.AtMost.bind (n := 1) (k := 0) challengeCookie_atMost fun _ => trivial

theorem registerOptions_atMost (cookies : Option String) (drawn : CeremonyDraw) :
    (registerOptions app W cookies drawn).AtMost storesChallenge 1 := by
  unfold registerOptions
  refine Prog.AtMost.bind (n := 0) (k := 1) (atMost_zero (authenticateUser_calls _)) fun user => ?_
  refine Prog.AtMost.bind (n := 0) (k := 1) (atMost_zero (lift_calls _)) fun config => ?_
  refine Prog.AtMost.bind (n := 0) (k := 1) (atMost_zero (get_calls _)) fun registered => ?_
  split
  · trivial
  · refine Prog.AtMost.bind (n := 0) (k := 1) (atMost_zero (get_calls _)) fun existing => ?_
    split
    · trivial
    · refine Prog.AtMost.bind (n := 0) (k := 1) (atMost_zero (lift_calls _)) fun started => ?_
      exact Prog.AtMost.bind (n := 1) (k := 0) challengeCookie_atMost fun _ => trivial

end Stores

section Runs

variable {app : AppState} {W : Webauthn} {H : Host} {handle : String}

abbrev PasskeyThread (W : Webauthn) := Thread authCalls Error Server (PasskeyResponse W)

abbrev PasskeyPool (W : Webauthn) := Pool authCalls Error Server (PasskeyResponse W)

def PasskeyResponse.completes : PasskeyResponse W → Bool
  | signedIn _ _ => true
  | registered _ => true
  | _ => false

/-- The request in this place has completed a login or a registration, with the handle in its
cookie. -/
def CompletedAt (requests : List (PasskeyRequest W)) (p : PasskeyPool W) (i : ℕ) (handle : String) :
    Prop :=
  ∃ req th r, requests[i]? = some req ∧ p.threads[i]? = some th ∧ req.redeems = some handle ∧
    th.rest = .ret r ∧ r.completes = true

namespace PasskeyRequest

/-- A verification has failed: the request has ended with no completion, neither before its challenge was
taken nor because a call failed. -/
def VerificationFailed (app : AppState) (req : PasskeyRequest W) (th : PasskeyThread W) : Prop :=
  th.rest = .ret .refused ∨ ∃ e, th.rest = .fail e ∧ ¬ req.Early app e ∧ ¬ Failed th.history e

/-- The two requests are of one ceremony: what the second verified is what the first had started, for
the same user when it is a registration. -/
def OneCeremony (app : AppState) (handle : String) (opt req : PasskeyRequest W)
    (h h' : AuthHistory) : Prop :=
  match opt, req with
  | loginOptions _ _ drawn, login _ _ credential _ => drawn.handle = handle ∧
      ∃ challenge payload stored verified result,
        W.startAuthentication drawn.random = .ok (challenge, payload.state) ∧
        Unsealed app W.authentication passkeyAuthenticationCookie handle h' payload ∧
        Asserted app W credential payload.state h' stored verified result
  | registerOptions cookies drawn, register cookies' _ credential => drawn.handle = handle ∧
      ∃ challenge payload userId email name exclude key,
        W.startRegistration drawn.random userId email name exclude = .ok (challenge, payload.state) ∧
        SignedInAs app cookies h userId ∧ SignedInAs app cookies' h' userId ∧
        payload.userId = some userId ∧
        Unsealed app W.registration passkeyRegistrationCookie handle h' payload ∧
        W.finishRegistration credential payload.state = .ok key
  | _, _ => False

end PasskeyRequest

/-- Challenges are spent once, by what they were issued for. -/
structure SpentOnce (app : AppState) (B : AccountBackend) (requests : List (PasskeyRequest W))
    (p : PasskeyPool W) : Prop where
  /-- A challenge leads to at most one completion. -/
  once : ∀ i j handle, CompletedAt requests p i handle → CompletedAt requests p j handle → i = j
  /-- The challenge of a completion was taken unexpired, and issued for this ceremony. -/
  earned : ∀ (i : ℕ) (req : PasskeyRequest W) (th : PasskeyThread W) (r : PasskeyResponse W),
    requests[i]? = some req → p.threads[i]? = some th → th.rest = .ret r → r.completes = true →
      ∃ (c : AuthChallenge) (now : Timestamp), req.redeems = some c.id ∧ c.purpose = req.purpose ∧
        Answered (S := authCalls) th.history (.query .now) now ∧ (∃ e ∈ th.history, Took B c now e) ∧
        ∃ (j : ℕ) (opt : PasskeyRequest W) (th' : PasskeyThread W),
          requests[j]? = some opt ∧ p.threads[j]? = some th' ∧
          (∃ e ∈ th'.history, Stored B c e) ∧ opt.OneCeremony app c.id req th'.history th.history
  /-- A request that has taken its challenge has spent it, however it goes on. -/
  spent : ∀ (i : ℕ) (req : PasskeyRequest W) (th : PasskeyThread W) (handle : String),
    requests[i]? = some req → p.threads[i]? = some th → req.redeems = some handle →
      req.Spends th.history → (∀ c ∈ p.state.db.authChallenges, c.id ≠ handle) ∧
        ∀ j, CompletedAt requests p j handle → j = i
  /-- A verification that fails has spent the challenge too. -/
  failed : ∀ (i : ℕ) (req : PasskeyRequest W) (th : PasskeyThread W) (handle : String),
    requests[i]? = some req → p.threads[i]? = some th → req.redeems = some handle →
      req.VerificationFailed app th → req.Spends th.history ∧
        (∀ c ∈ p.state.db.authChallenges, c.id ≠ handle) ∧ ∀ j, ¬ CompletedAt requests p j handle

section Thread

variable {I : Server → Prop} {req : PasskeyRequest W} {th : PasskeyThread W}

theorem PasskeyRequest.verdict_of_sound (hth : th.Sound H.machine I (req.prog app W))
    {o : Interaction.Outcome Error (PasskeyResponse W)}
    (ho : (∃ r, th.rest = .ret r ∧ o = .ok r) ∨ ∃ e, th.rest = .fail e ∧ o = .err e) :
    req.Verdict app th.history o := by
  have hobeys := hth.obeys (prog_follows app H req)
  rw [Protocol.after_recording, List.nil_append] at hobeys
  rcases ho with ⟨r, hrest, rfl⟩ | ⟨e, hrest, rfl⟩
  · rw [hrest] at hobeys
    exact hobeys
  · rw [hrest] at hobeys
    exact hobeys

theorem PasskeyRequest.may_of_sound (hth : th.Sound H.machine I (req.prog app W))
    {e : Transition authCalls Error Server} (he : e ∈ th.history) :
    ∃ h, h ⊆ th.history ∧ req.May app h e.call := by
  obtain ⟨h₁, h₂, hsplit⟩ := List.append_of_mem he
  have hpath := hth.path
  rw [hsplit] at hpath
  have hmay := (prog_follows app H req).may_of_path hpath
    fun e he => (hth.calls e (hsplit ▸ List.mem_append_left _ he)).2
  rw [Protocol.after_recording, List.nil_append] at hmay
  exact ⟨h₁, hsplit ▸ List.subset_append_left _ _, hmay⟩

theorem Taken.took {h : AuthHistory} (hsound : ∀ e ∈ h, e.Sound H.machine)
    {purpose signed : String} (ht : Taken purpose handle h signed) :
    ∃ c now, c.id = handle ∧ c.purpose = purpose ∧ c.state = signed ∧
      Answered h (.query .now) now ∧ ∃ e ∈ h, Took H.backend c now e := by
  obtain ⟨now, hnow, before, after, hmem⟩ := ht
  obtain ⟨c, hid, hpurpose, hstate, htook, -⟩ := took_of_sound (hsound _ hmem)
  exact ⟨c, now, hid, hpurpose, hstate, hnow, _, hmem, htook⟩

theorem PasskeyRequest.Spends.takes (hth : th.Sound H.machine I (req.prog app W))
    (hs : req.Spends th.history) (hhandle : req.redeems = some handle) :
    0 < th.history.countP (Auth.takes handle) := by
  obtain ⟨handle', signed, hhandle', htaken⟩ := hs
  obtain rfl : handle' = handle := Option.some.inj (hhandle'.symm.trans hhandle)
  obtain ⟨c, now, rfl, -, -, -, e, he, htook⟩ := htaken.took fun e he => (hth.calls e he).2
  exact List.countP_pos_iff.mpr ⟨e, he, htook.takes⟩

theorem PasskeyRequest.stores_le (hth : th.Sound H.machine I (req.prog app W)) (handle : String) :
    th.history.countP (stores handle) ≤ if req.issues = some handle then 1 else 0 := by
  have hdrawn : 0 < th.history.countP (stores handle) → req.issues = some handle := by
    intro hpos
    obtain ⟨e, he, hstores⟩ := List.countP_pos_iff.mp hpos
    obtain ⟨c, rfl, before, after, dropped, expiresAt, -, rfl⟩ :=
      (stores_iff (B := H.backend)).mp hstores
    obtain ⟨h, -, hmay⟩ := req.may_of_sound hth he
    cases req with
    | loginOptions ip limited drawn => exact congrArg some hmay.1.symm
    | registerOptions cookies drawn => exact congrArg some hmay.1.symm
    | _ => exact hmay.elim
  split
  · have hcalls : th.history.countP (stores handle) ≤
        th.history.countP fun e => storesChallenge e.call := by
      refine List.countP_mono_left fun e _ hstores => ?_
      obtain ⟨c, -, before, after, dropped, expiresAt, -, rfl⟩ :=
        (stores_iff (B := H.backend)).mp hstores
      rfl
    refine hcalls.trans ?_
    cases req with
    | loginOptions ip limited drawn => exact (loginOptions_atMost ip limited drawn).countP_le hth.path
    | registerOptions cookies drawn => exact (registerOptions_atMost cookies drawn).countP_le hth.path
    | _ => contradiction
  · rename_i hissues
    exact Nat.le_of_not_lt fun hpos => hissues (hdrawn hpos)

end Thread

section Threads

variable {requests : List (PasskeyRequest W)} {s : Server} {turns : List (Turn authCalls Error)}

/-- The requests of the list, each in its place. -/
abbrev passkeyRun (app : AppState) (H : Host) (requests : List (PasskeyRequest W)) (s : Server)
    (turns : List (Turn authCalls Error)) : PasskeyPool W :=
  (Pool.start (requests.map fun req => req.prog app W) s).run H.machine turns

theorem passkeyRun_at {i : ℕ} {th : PasskeyThread W}
    (hi : (passkeyRun app H requests s turns).threads[i]? = some th) :
    ∃ req, requests[i]? = some req ∧ th.Sound H.machine (fun _ => True) (req.prog app W) := by
  obtain ⟨q, hq, hsound⟩ := Pool.sound_at H.machine _ s turns hi
  rw [List.getElem?_map] at hq
  obtain ⟨req, hreq, rfl⟩ := Option.map_eq_some_iff.mp hq
  exact ⟨req, hreq, hsound⟩

theorem sum_issues (requests : List (PasskeyRequest W)) (handle : String) :
    (requests.map fun req => if req.issues = some handle then 1 else 0).sum =
      (requests.filterMap PasskeyRequest.issues).count handle := by
  induction requests with
  | nil => rfl
  | cons req requests ih =>
    rw [List.map_cons, List.sum_cons, ih]
    cases hissues : req.issues with
    | none => rw [List.filterMap_cons_none hissues, if_neg nofun, Nat.zero_add]
    | some handle' =>
      rw [List.filterMap_cons_some hissues, List.count_cons, Nat.add_comm]
      simp only [Option.some.injEq, beq_iff_eq]

theorem tally_stores_le (hdistinct : (requests.filterMap PasskeyRequest.issues).Nodup)
    (handle : String) : (passkeyRun app H requests s turns).tally (stores handle) ≤ 1 := by
  have hall := (Pool.run_sound (m := H.machine) (I := fun _ => True) (fun _ _ _ => trivial) trivial
    (Pool.start_sound (requests.map fun req => req.prog app W) s) turns).2
  rw [List.forall₂_map_left_iff] at hall
  refine (Pool.tally_le hall fun req th hth => req.stores_le hth handle).trans ?_
  rw [sum_issues]
  exact List.nodup_iff_count_le_one.mp hdistinct handle

section Spent

variable (hdistinct : (requests.filterMap PasskeyRequest.issues).Nodup)
  (hempty : s.db.authChallenges = [])
  (hothers : ∀ c, Turn.other c ∈ turns → ChallengeCall c = false)
include hdistinct hempty hothers

theorem tally_takes_le (handle : String) :
    (passkeyRun app H requests s turns).tally (takes handle) +
      challengesAt (passkeyRun app H requests s turns).state.db handle ≤ 1 := by
  have hbalance := (Balanced.run (H := H) (requests.map fun req => req.prog app W) hempty
    hothers).balance handle
  rw [← Pool.tally_eq_countP, ← Pool.tally_eq_countP] at hbalance
  exact hbalance.trans (tally_stores_le hdistinct handle)

theorem spends_unique {i j : ℕ} {req req' : PasskeyRequest W} {th th' : PasskeyThread W}
    (hreq : requests[i]? = some req) (hreq' : requests[j]? = some req')
    (hi : (passkeyRun app H requests s turns).threads[i]? = some th)
    (hj : (passkeyRun app H requests s turns).threads[j]? = some th')
    (hspends : req.Spends th.history) (hspends' : req'.Spends th'.history)
    (hhandle : req.redeems = some handle) (hhandle' : req'.redeems = some handle) : i = j := by
  by_contra hij
  obtain ⟨_, hreq₀, hth⟩ := passkeyRun_at hi
  obtain ⟨_, hreq₀', hth'⟩ := passkeyRun_at hj
  obtain rfl := Option.some.inj (hreq.symm.trans hreq₀)
  obtain rfl := Option.some.inj (hreq'.symm.trans hreq₀')
  have htwo := Pool.two_le_tally hij hi hj (hspends.takes hth hhandle) (hspends'.takes hth' hhandle')
  have hone : (passkeyRun app H requests s turns).tally (takes handle) +
      challengesAt (passkeyRun app H requests s turns).state.db handle ≤ 1 :=
    tally_takes_le hdistinct hempty hothers handle
  omega

omit hdistinct hempty hothers in
theorem completes_of_completed {i : ℕ} {req : PasskeyRequest W} {th : PasskeyThread W}
    {r : PasskeyResponse W} (hreq : requests[i]? = some req)
    (hi : (passkeyRun app H requests s turns).threads[i]? = some th) (hr : th.rest = .ret r)
    (hcompletes : r.completes = true) : req.Completes app th.history := by
  obtain ⟨_, hreq₀, hth⟩ := passkeyRun_at hi
  obtain rfl := Option.some.inj (hreq.symm.trans hreq₀)
  have hverdict := req.verdict_of_sound hth (.inl ⟨r, hr, rfl⟩)
  cases r with
  | signedIn user sessionId => exact hverdict
  | registered key => exact hverdict
  | _ => cases hcompletes

omit hdistinct hempty hothers in
theorem spends_of_failed {i : ℕ} {req : PasskeyRequest W} {th : PasskeyThread W}
    (hreq : requests[i]? = some req)
    (hi : (passkeyRun app H requests s turns).threads[i]? = some th)
    (hfailed : req.VerificationFailed app th) : req.Spends th.history := by
  obtain ⟨_, hreq₀, hth⟩ := passkeyRun_at hi
  obtain rfl := Option.some.inj (hreq.symm.trans hreq₀)
  rcases hfailed with hrest | ⟨e, hrest, hearly, hcalls⟩
  · exact PasskeyRequest.verdict_of_sound hth (.inl ⟨_, hrest, rfl⟩)
  · rcases PasskeyRequest.verdict_of_sound hth (.inr ⟨e, hrest, rfl⟩) with h | h | h
    · exact absurd h hearly
    · exact absurd h hcalls
    · exact h

/-- The row of a challenge that is taken is gone, and nobody else completes with it. -/
theorem spent_of_spends {i : ℕ} {req : PasskeyRequest W} {th : PasskeyThread W}
    (hreq : requests[i]? = some req)
    (hi : (passkeyRun app H requests s turns).threads[i]? = some th)
    (hhandle : req.redeems = some handle) (hspends : req.Spends th.history) :
    (∀ c ∈ (passkeyRun app H requests s turns).state.db.authChallenges, c.id ≠ handle) ∧
      ∀ j, CompletedAt requests (passkeyRun app H requests s turns) j handle → j = i := by
  constructor
  · obtain ⟨_, hreq₀, hth⟩ := passkeyRun_at hi
    obtain rfl := Option.some.inj (hreq.symm.trans hreq₀)
    have htakes : th.history.countP (takes handle) ≤
        (passkeyRun app H requests s turns).tally (takes handle) :=
      le_sum_map (List.mem_of_getElem? hi) fun th : PasskeyThread W => th.history.countP (takes handle)
    have hpos := hspends.takes hth hhandle
    have hle : (passkeyRun app H requests s turns).tally (takes handle) +
        challengesAt (passkeyRun app H requests s turns).state.db handle ≤ 1 :=
      tally_takes_le hdistinct hempty hothers handle
    have hzero : challengesAt (passkeyRun app H requests s turns).state.db handle = 0 := by
      omega
    intro c hc hid
    exact List.countP_eq_zero.mp hzero c hc (decide_eq_true hid)
  · rintro j ⟨req', th', r, hreq', hj, hhandle', hr, hdone⟩
    exact spends_unique hdistinct hempty hothers hreq' hreq hj hi
      (completes_of_completed hreq' hj hr hdone).spends hspends hhandle' hhandle

omit hdistinct in
theorem issued_of_taken {th : PasskeyThread W}
    (hmem : th ∈ (passkeyRun app H requests s turns).threads) {c : AuthChallenge} {now : Timestamp}
    {e : Transition authCalls Error Server} (he : e ∈ th.history) (htook : Took H.backend c now e) :
    ∃ (j : ℕ) (opt : PasskeyRequest W) (th' : PasskeyThread W) (h : AuthHistory),
      requests[j]? = some opt ∧ (passkeyRun app H requests s turns).threads[j]? = some th' ∧
      (∃ e ∈ th'.history, Stored H.backend c e) ∧ h ⊆ th'.history ∧
      opt.Issues app h c.id c.purpose c.state := by
  obtain ⟨e', he', hstored⟩ := (Balanced.run (H := H) (requests.map fun req => req.prog app W)
    hempty hothers).taken e (Pool.mem_events.mpr ⟨th, hmem, he⟩) c now htook
  obtain ⟨th', hth', he'⟩ := Pool.mem_events.mp he'
  obtain ⟨j, hj⟩ := List.mem_iff_getElem?.mp hth'
  obtain ⟨opt, hopt, hsound⟩ := passkeyRun_at hj
  obtain ⟨h, hsub, hmay⟩ := opt.may_of_sound hsound he'
  refine ⟨j, opt, th', h, hopt, hj, ⟨e', he', hstored⟩, hsub, ?_⟩
  obtain ⟨before, after, dropped, expiresAt, -, rfl⟩ := hstored
  exact hmay

end Spent

/-- A challenge is spent once, by the ceremony that it was issued for, whatever the order of the
requests. -/
theorem challenges_spent_once (hsigning : app.signing.Lawful) (hlogin : W.authentication.Lawful)
    (hregistration : W.registration.Lawful) (H : Host)
    (hdistinct : (requests.filterMap PasskeyRequest.issues).Nodup)
    (hempty : s.db.authChallenges = [])
    (hothers : ∀ c, Turn.other c ∈ turns → ChallengeCall c = false) :
    SpentOnce app H.backend requests (passkeyRun app H requests s turns) := by
  constructor
  · rintro i j handle ⟨req, th, r, hreq, hi, hhandle, hr, hdone⟩
      ⟨req', th', r', hreq', hj, hhandle', hr', hdone'⟩
    exact spends_unique hdistinct hempty hothers hreq hreq' hi hj
      (completes_of_completed hreq hi hr hdone).spends
      (completes_of_completed hreq' hj hr' hdone').spends hhandle hhandle'
  · intro i req th r hreq hi hr hdone
    have hcompletes := completes_of_completed hreq hi hr hdone
    have hsound : ∀ e ∈ th.history, e.Sound H.machine := by
      obtain ⟨_, -, hth⟩ := passkeyRun_at hi
      exact fun e he => (hth.calls e he).2
    cases req with
    | login ip cookies credential sessionId =>
      obtain ⟨handle, payload, stored, verified, result, hhandle, hopened, hasserted, -⟩ := hcompletes
      obtain ⟨signed, read, htaken, hread, hdecode⟩ := id hopened
      obtain ⟨c, now, rfl, hpurpose, rfl, hnow, e, he, htook⟩ := htaken.took hsound
      obtain ⟨j, opt, th', h, hopt, hj, hstored, -, hissues⟩ :=
        issued_of_taken hempty hothers (List.mem_of_getElem? hi) he htook
      refine ⟨c, now, hhandle, hpurpose, hnow, ⟨e, he, htook⟩, j, opt, th', hopt, hj, hstored, ?_⟩
      cases opt with
      | loginOptions ip limited drawn =>
        obtain ⟨hid, -, challenge, ceremony, nowUnix, ttl, hstart, hsigned⟩ := hissues
        obtain rfl := decodeChallenge_encodeChallenge hsigning hlogin hsigned hdecode
        exact ⟨hid.symm, challenge, _, stored, verified, result, hstart, hopened, hasserted⟩
      | registerOptions cookies drawn => exact absurd (hissues.2.1.symm.trans hpurpose) (by decide)
      | _ => exact hissues.elim
    | register cookies name credential =>
      obtain ⟨handle, payload, userId, key, hhandle, hopened, huser, hsigned, hkey⟩ := hcompletes
      obtain ⟨signed, read, htaken, hread, hdecode⟩ := id hopened
      obtain ⟨c, now, rfl, hpurpose, rfl, hnow, e, he, htook⟩ := htaken.took hsound
      obtain ⟨j, opt, th', h, hopt, hj, hstored, hsub, hissues⟩ :=
        issued_of_taken hempty hothers (List.mem_of_getElem? hi) he htook
      refine ⟨c, now, hhandle, hpurpose, hnow, ⟨e, he, htook⟩, j, opt, th', hopt, hj, hstored, ?_⟩
      cases opt with
      | registerOptions cookies' drawn =>
        obtain ⟨hid, -, owner, email, name, exclude, challenge, ceremony, nowUnix, ttl, howner, hstart,
          hencoded⟩ := hissues
        obtain rfl := decodeChallenge_encodeChallenge hsigning hregistration hencoded hdecode
        obtain rfl : owner = userId := Option.some.inj huser
        exact ⟨hid.symm, challenge, _, owner, email, name, exclude, key, hstart, howner.mono hsub,
          hsigned, huser, hopened, hkey⟩
      | loginOptions ip limited drawn => exact absurd (hissues.2.1.symm.trans hpurpose) (by decide)
      | _ => exact hissues.elim
    | _ => exact hcompletes.elim
  · intro i req th handle hreq hi hhandle hspends
    exact spent_of_spends hdistinct hempty hothers hreq hi hhandle hspends
  · intro i req th handle hreq hi hhandle hfailed
    have hspends := spends_of_failed hreq hi hfailed
    obtain ⟨hgone, hunique⟩ := spent_of_spends hdistinct hempty hothers hreq hi hhandle hspends
    refine ⟨hspends, hgone, fun j hj => ?_⟩
    obtain rfl := hunique j hj
    obtain ⟨_, th', r, -, hj, -, hr, hdone⟩ := hj
    obtain rfl := Option.some.inj (hi.symm.trans hj)
    rcases hfailed with hrest | ⟨e, hrest, -⟩
    · rw [hrest] at hr
      cases hr
      cases hdone
    · rw [hrest] at hr
      cases hr

end Threads

end Runs

theorem toNat_ofNat {n : ℕ} (h : n < 0xd800) : (Char.ofNat n).toNat = n := by
  have hvalid : n.isValidChar := .inl h
  rw [Char.ofNat, dif_pos hvalid]
  rfl

theorem Codec.ofNumbers_lawful {α : Type} {write : α → List ℕ} {read : List ℕ → Option α}
    (hread : ∀ a, read (write a) = some a) : (Codec.ofNumbers write read).Lawful := by
  intro a text htext
  simp only [ofNumbers, charsOf] at htext ⊢
  split at htext
  · rename_i hrange
    obtain rfl := Except.ok.inj htext
    have hback : ((write a).map Char.ofNat).map Char.toNat = write a := by
      rw [List.map_map]
      refine (List.map_congr_left fun n hn => ?_).trans (List.map_id _)
      exact toNat_ofNat (of_decide_eq_true (List.all_eq_true.mp hrange n hn))
    rw [String.toList_ofList, hback, hread]
    rfl
  · cases htext

theorem readPayload_payloadNumbers (payload : ChallengePayload ℕ) :
    readPayload (payloadNumbers payload) = some payload := by
  obtain ⟨state, userId, expiresAt⟩ := payload
  simp only [payloadNumbers, readPayload, Int.toNat_sub_toNat_neg]
  cases userId with
  | none => rfl
  | some userId => rfl

theorem Signing.spelled_lawful : Signing.spelled.Lawful where
  decode_encode bytes := by
    simp only [spelled, String.toList_ofList, List.map_map]
    have hback : ((fun c : Char => UInt8.ofNat (c.toNat - 0x100)) ∘
        fun b : UInt8 => Char.ofNat (0x100 + b.toNat)) = id := by
      funext b
      have hb : b.toNat < 256 := b.toNat_lt
      simp only [Function.comp_apply, id_eq]
      rw [toNat_ofNat (by omega), Nat.add_sub_cancel_left, UInt8.ofNat_toNat]
    rw [hback, List.map_id]
  no_dot bytes := by
    simp only [spelled, String.toList_ofList]
    intro hdot
    obtain ⟨b, -, hb⟩ := List.mem_map.mp hdot
    have hlt : b.toNat < 256 := b.toNat_lt
    have hnat := congrArg Char.toNat hb
    rw [toNat_ofNat (by omega)] at hnat
    change _ = 46 at hnat
    omega

/-- One login whose cookie two requests present, and one with a credential that nobody has. -/
def twoLogins : List (PasskeyRequest .plain) :=
  [.loginOptions "192.0.2.1" none ⟨"handle", 7, []⟩,
    .login "192.0.2.1" (some "soika_passkey_auth=handle") ⟨0, 1, 7, 5⟩ "first",
    .login "192.0.2.1" (some "soika_passkey_auth=handle") ⟨0, 1, 7, 5⟩ "second",
    .loginOptions "192.0.2.1" none ⟨"other", 8, []⟩,
    .login "192.0.2.1" (some "soika_passkey_auth=other") ⟨9, 9, 8, 5⟩ "third"]

theorem challenges_spent_once_twoLogins :
    SpentOnce (.withPasskeys 1) Host.plain.backend twoLogins
      (passkeyRun (.withPasskeys 1) .plain twoLogins .new
        ([0, 0, 0, 0, 1, 2, 2, 1, 1, 2, 3, 3, 3, 3, 4, 4, 4, 4, 4, 4].map fun i => .thread i none)) :=
  challenges_spent_once Signing.spelled_lawful (Codec.ofNumbers_lawful readPayload_payloadNumbers)
    (Codec.ofNumbers_lawful readPayload_payloadNumbers) .plain (by decide) rfl (by simp)

end Soika.Auth
