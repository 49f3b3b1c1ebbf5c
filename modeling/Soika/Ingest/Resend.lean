import Soika.Grouping.Accounting
import Soika.Ingest.EnvelopeFormat
import Soika.Ingest.Handlers

/-! # Sending an envelope again

A 429 asks for the whole envelope again, so what an attempt has committed before
its failure is done a second time. The final counts are right exactly when the
attempts that failed had committed nothing.
-/

namespace Soika

open Interaction

/-- One sending of an envelope. -/
structure Sending where
  request : Request
  /-- What the repositories read from outside the store for the `n`-th item. -/
  ambient : ℕ → Ambient
  faults : Faults Error

section

variable (k : Intake) (projectId : Id)

def Sending.issues (a : Sending) (n : ℕ) : IssueRepository sqliteCalls := sqliteIssues (a.ambient n)

/-- The pipeline for the payload of the `n`-th item. -/
abbrev Sending.ingest (a : Sending) (n : ℕ) (payload : Value) :
    Prog sqliteCalls Error IngestOutcome :=
  sqliteIngest k.grouping (a.ambient n) (eventInput k projectId a.request n payload) a.request.now

/-- The run of the handler on one sending. -/
def attempt (body : List UInt8) (a : Sending) (s : Store) : Run Error Store Response :=
  sqliteDb.exec (envelope a.issues sqliteEvents k projectId a.request body) a.faults s

/-- Sendings one after the other that are all answered with 429. -/
inductive Deferred (body : List UInt8) : List Sending → Store → Store → Prop
  | nil (s : Store) : Deferred body [] s s
  | cons {a : Sending} {rest : List Sending} {s s' : Store} {response : Response} :
    (attempt k projectId body a s).outcome = .ok response → response.status = 429 →
      Deferred body rest (attempt k projectId body a s).state s' → Deferred body (a :: rest) s s'

def fingerprintOf (r : Request) (payload : Value) : String :=
  k.grouping.fingerprintNormalized (k.fromValue (enrich k.parseUserAgent r.requestMeta payload))

/-- Every event is stored once more, and counted once by the issue of its fingerprint. -/
structure CountedOnce (r : Request) (payloads : List Value) (s s' : Store) : Prop where
  stored : ∀ payload ∈ payloads, ∀ id ∈ eventIdFromPayload payload,
    s'.copiesOf projectId id = s.copiesOf projectId id + 1
  counted : ∀ fingerprint, s'.eventCountOf (projectId, fingerprint) =
    s.eventCountOf (projectId, fingerprint) +
      payloads.countP fun payload => fingerprintOf k r payload = fingerprint

end

/-- As many rows under each event id, and as many counts of each fingerprint, as there are events. -/
structure Counted (k : Intake) (projectId : Id) (r : Request) (payloads : List Value)
    (s s' : Store) : Prop where
  copies : ∀ id, s'.copiesOf projectId id = s.copiesOf projectId id +
    payloads.countP fun payload => eventIdFromPayload payload = some id
  counts : ∀ fingerprint, s'.eventCountOf (projectId, fingerprint) =
    s.eventCountOf (projectId, fingerprint) +
      payloads.countP fun payload => fingerprintOf k r payload = fingerprint

/-- Each event carries its own id. -/
structure OwnEventIds (payloads : List Value) : Prop where
  carried : ∀ payload ∈ payloads, (eventIdFromPayload payload).isSome
  distinct : (payloads.map eventIdFromPayload).Nodup

def SqliteCmd.OfIngest : SqliteCmd → Prop
  | upsert _ _ => True
  | store (.insertEvent _) => True
  | store (.countInWindow _ _) => True
  | store (.setStatus _ status _) => status = .unresolved
  | _ => False

theorem sqliteStep_eventCountOf_le {c : SqliteCmd} (hc : c.OfIngest) {s : Store}
    (hs : s.Consistent) (group : Id × String) :
    s.eventCountOf group ≤ (sqliteStep c s).2.eventCountOf group := by
  cases c with
  | upsert upsert draws =>
    simp only [sqliteStep]
    cases h : upsertOnce sqlite upsert draws s with
    | error e => exact le_rfl
    | ok r =>
      refine le_of_le_of_eq ?_ (upsertOnce_eventCountOf hs h group).symm
      split_ifs <;> omega
  | overrideFingerprint issueId fingerprint now => exact hc.elim
  | store c =>
    have hkeep : (SqliteCmd.store c).KeepsCounts := by
      cases c <;> first | exact hc.elim | trivial
    exact (sqliteStep_eventCountOf hkeep s group).ge

/-- Ingests, however they end, take no count back. -/
theorem exec_eventCountOf_le {α : Type} {p : Prog sqliteCalls Error α}
    (hp : p.Calls SqliteCmd.OfIngest) (φ : Faults Error) {s : Store} (hs : s.Consistent)
    (group : Id × String) :
    s.eventCountOf group ≤ (sqliteDb.exec p φ s).state.eventCountOf group :=
  (Machine.exec_keeps (m := sqliteDb)
    (I := fun t => t.Consistent ∧ s.eventCountOf group ≤ t.eventCountOf group)
    (fun c _ hc h => ⟨h.1.sqliteStep c, h.2.trans (sqliteStep_eventCountOf_le hc h.1 group)⟩)
    hp φ ⟨hs, le_rfl⟩).2

section Loop

variable {k : Intake} {projectId : Id} {a : Sending} {n : ℕ} {accepted : Option String}
  {item : EnvelopeItem} {items : List EnvelopeItem} {φ : Faults Error} {s : Store}

theorem processItems_calls :
    (processItems a.issues sqliteEvents k projectId a.request n accepted items).Calls
      SqliteCmd.OfIngest := by
  induction items generalizing n accepted with
  | nil => trivial
  | cons item rest ih =>
    cases hp : eventPayload k.fromSlice item with
    | none => exact processItems_skip hp ▸ ih
    | some payload =>
      rw [processItems_event hp]
      refine Prog.Calls.bind (Prog.Calls.result ?_) ?_
      · exact (sqliteIngest_calls trivial (fun _ => trivial) (fun _ _ => trivial)
          fun _ => rfl).bind fun _ => trivial
      · rintro (e | eventId)
        · trivial
        · exact ih

/-- The loop on an event runs its ingest and goes on, or ends with the answer to its failure. -/
theorem exec_processItems_event {payload : Value}
    (h : eventPayload k.fromSlice item = some payload) :
    sqliteDb.exec
        (processItems a.issues sqliteEvents k projectId a.request n accepted (item :: items)) φ s =
      match sqliteDb.exec (a.ingest k projectId n payload) φ s with
      | ⟨.ok _, s', φ'⟩ => sqliteDb.exec (processItems a.issues sqliteEvents k projectId a.request
          (n + 1) (accepted.or (some (eventInput k projectId a.request n payload).eventId)) items)
            φ' s'
      | ⟨.err e, s', φ'⟩ => ⟨.ok (.error e), s', φ'⟩
      | ⟨.panic, s', φ'⟩ => ⟨.panic, s', φ'⟩ := by
  rw [processItems_event h, Machine.exec_bind, Machine.exec_result, processEvent, Prog.bind_eq,
    Machine.exec_bind]
  have hrun : sqliteDb.exec (ingestNormalized (a.issues n) sqliteEvents k.grouping
      (eventInput k projectId a.request n payload) a.request.now) φ s =
        sqliteDb.exec (a.ingest k projectId n payload) φ s := rfl
  rw [hrun]
  rcases sqliteDb.exec (a.ingest k projectId n payload) φ s with ⟨_ | _ | _, s', φ'⟩ <;> rfl

theorem eventPayloads_skip (h : eventPayload k.fromSlice item = none) :
    eventPayloads k.fromSlice (item :: items) = eventPayloads k.fromSlice items :=
  List.filterMap_cons_none h

theorem eventPayloads_event {payload : Value} (h : eventPayload k.fromSlice item = some payload) :
    eventPayloads k.fromSlice (item :: items) = payload :: eventPayloads k.fromSlice items :=
  List.filterMap_cons_some h

theorem Counted.once {r : Request} {payloads : List Value} {s s' : Store}
    (h : Counted k projectId r payloads s s') (hids : OwnEventIds payloads) :
    CountedOnce k projectId r payloads s s' := by
  refine ⟨fun payload hmem id hid => ?_, h.counts⟩
  have hone : (payloads.map eventIdFromPayload).count (some id) = 1 :=
    List.count_eq_one_of_mem hids.distinct (List.mem_map.mpr ⟨payload, hmem, hid⟩)
  rw [h.copies, ← hone, List.count, List.countP_map]
  exact congrArg _ (List.countP_congr fun p _ => by simp)

theorem Counted.nil {r : Request} (s : Store) : Counted k projectId r [] s s :=
  ⟨fun _ => rfl, fun _ => by simp⟩

theorem Counted.cons {r : Request} {payload : Value} {payloads : List Value} {s' s'' : Store}
    (h : Counted k projectId r [payload] s s') (hrest : Counted k projectId r payloads s' s'') :
    Counted k projectId r (payload :: payloads) s s'' := by
  constructor
  · intro id
    rw [hrest.copies, h.copies]
    simp only [List.countP_cons, List.countP_nil]
    omega
  · intro fingerprint
    rw [hrest.counts, h.counts]
    simp only [List.countP_cons, List.countP_nil]
    omega

section Item

variable (k projectId) (a) (n) (φ) (payload : Value)

theorem Sending.ingest_consistent (hs : s.Consistent) :
    (sqliteDb.exec (a.ingest k projectId n payload) φ s).state.Consistent :=
  hs.sqliteExec _ φ

theorem Sending.ingest_counted (hs : s.Consistent) (hid : (eventIdFromPayload payload).isSome)
    (outcome : IngestOutcome)
    (h : (sqliteDb.exec (a.ingest k projectId n payload) φ s).outcome = .ok outcome) :
    Counted k projectId a.request [payload] s
      (sqliteDb.exec (a.ingest k projectId n payload) φ s).state := by
  obtain ⟨id, hid⟩ := Option.isSome_iff_exists.mp hid
  obtain ⟨hcounts, issueId, rowId, hevents⟩ := ingest_ok k.grouping (a.ambient n)
    (eventInput k projectId a.request n payload) a.request.now hs h
  constructor
  · intro id'
    rw [Store.copiesOf, hevents, List.countP_append, List.countP_singleton, List.countP_singleton,
      hid, Store.copiesOf]
    simp [NewEvent.row, IngestInput.newEvent, eventInput, enrich_eventId, hid]
  · intro fingerprint
    rw [hcounts, List.countP_singleton]
    simp [eventInput, fingerprintOf, eq_comm]

theorem Sending.ingest_adds (hs : s.Consistent) (hφ : φ 0 = none)
    (h : (∃ outcome, (sqliteDb.exec (a.ingest k projectId n payload) φ s).outcome = .ok outcome) ∨
      ∃ e, (sqliteDb.exec (a.ingest k projectId n payload) φ s).outcome = .err e ∧ e.isBusy) :
    s.eventCountOf (projectId, fingerprintOf k a.request payload) <
      (sqliteDb.exec (a.ingest k projectId n payload) φ s).state.eventCountOf
        (projectId, fingerprintOf k a.request payload) := by
  rcases h with ⟨outcome, h⟩ | ⟨e, h, hb⟩
  · rw [(ingest_ok k.grouping (a.ambient n) _ a.request.now hs h).1]
    simp [eventInput, fingerprintOf]
  · rw [ingest_busy k.grouping (a.ambient n) _ a.request.now hs hφ h hb]
    simp [eventInput, fingerprintOf]

end Item

theorem counted_of_processItems (hs : s.Consistent)
    (hids : ∀ payload ∈ eventPayloads k.fromSlice items, (eventIdFromPayload payload).isSome)
    {first : Option String}
    (h : (sqliteDb.exec (processItems a.issues sqliteEvents k projectId a.request n accepted items)
      φ s).outcome = .ok (.ok first)) :
    Counted k projectId a.request (eventPayloads k.fromSlice items) s (sqliteDb.exec (processItems
      a.issues sqliteEvents k projectId a.request n accepted items) φ s).state := by
  induction items generalizing n accepted φ s with
  | nil => exact .nil s
  | cons item rest ih =>
    cases hp : eventPayload k.fromSlice item with
    | none =>
      rw [eventPayloads_skip hp] at hids ⊢
      rw [processItems_skip hp] at h ⊢
      exact ih hs hids h
    | some payload =>
      rw [eventPayloads_event hp] at hids ⊢
      rw [exec_processItems_event hp] at h ⊢
      have hkeep := a.ingest_consistent k projectId n φ payload hs
      have hone := a.ingest_counted k projectId n φ payload hs
        (hids payload List.mem_cons_self)
      rcases hrun : sqliteDb.exec (a.ingest k projectId n payload) φ s with ⟨out | e | _, s', φ'⟩
      · rw [hrun] at h hkeep hone
        exact (hone out rfl).cons
          (ih hkeep (fun p hmem => hids p (List.mem_cons_of_mem _ hmem)) h)
      · rw [hrun] at h
        cases h
      · rw [hrun] at h
        cases h

/-- A loop that is deferred has not reached the store, or has counted an event already. -/
theorem processItems_deferred (hs : s.Consistent) {e : Error} (hb : e.isBusy)
    (h : (sqliteDb.exec (processItems a.issues sqliteEvents k projectId a.request n accepted items)
      φ s).outcome = .ok (.error e)) :
    let s' := (sqliteDb.exec (processItems a.issues sqliteEvents k projectId a.request n accepted
      items) φ s).state
    φ 0 ≠ none ∧ s' = s ∨ φ 0 = none ∧
      ∃ fingerprint, s.eventCountOf (projectId, fingerprint) <
        s'.eventCountOf (projectId, fingerprint) := by
  induction items generalizing n accepted φ s with
  | nil => cases h
  | cons item rest ih =>
    cases hp : eventPayload k.fromSlice item with
    | none =>
      rw [processItems_skip hp] at h ⊢
      exact ih hs h
    | some payload =>
      rw [exec_processItems_event hp] at h ⊢
      cases hφ : φ 0 with
      | some e =>
        rw [exec_sqliteIngest, hφ] at h ⊢
        exact .inl ⟨nofun, rfl⟩
      | none =>
        refine .inr ⟨rfl, fingerprintOf k a.request payload, ?_⟩
        have hkeep := a.ingest_consistent k projectId n φ payload hs
        have hadds := a.ingest_adds k projectId n φ payload hs hφ
        rcases hrun : sqliteDb.exec (a.ingest k projectId n payload) φ s with ⟨out | e' | _, s', φ'⟩
        · rw [hrun] at hkeep hadds
          exact (hadds (.inl ⟨out, rfl⟩)).trans_le (exec_eventCountOf_le processItems_calls _ hkeep _)
        · rw [hrun] at h hadds
          cases h
          exact hadds (.inr ⟨e, rfl, hb⟩)
        · rw [hrun] at h
          cases h

end Loop

section Attempts

variable {k : Intake} {projectId : Id} {body : List UInt8} {parsed : Envelope} {a : Sending}
  {failed : List Sending} {s s' : Store}

theorem attempt_parsed (hp : parse k.fromSlice body = .ok parsed) :
    attempt k projectId body a s =
      match sqliteDb.exec (processItems a.issues sqliteEvents k projectId a.request 0 none
        parsed.items) a.faults s with
      | ⟨.ok (.ok first), s', φ'⟩ => ⟨.ok (.accepted ((first.or parsed.headerEventId).getD
          (a.request.newEventId parsed.items.length))), s', φ'⟩
      | ⟨.ok (.error e), s', φ'⟩ => ⟨.ok (failedResponse k e), s', φ'⟩
      | ⟨.err e, s', φ'⟩ => ⟨.err e, s', φ'⟩
      | ⟨.panic, s', φ'⟩ => ⟨.panic, s', φ'⟩ := by
  rw [attempt, envelope, hp]
  simp only [Prog.bind_eq, Machine.exec_bind]
  rcases sqliteDb.exec (processItems a.issues sqliteEvents k projectId a.request 0 none
    parsed.items) a.faults s with ⟨(_ | _) | _ | _, s', φ'⟩ <;> rfl

theorem envelope_calls :
    (envelope a.issues sqliteEvents k projectId a.request body).Calls SqliteCmd.OfIngest := by
  unfold envelope
  split
  · trivial
  · exact processItems_calls.bind fun r => by cases r <;> trivial

theorem attempt_consistent (hs : s.Consistent) :
    (attempt k projectId body a s).state.Consistent :=
  hs.sqliteExec _ a.faults

theorem attempt_eventCountOf_le (hs : s.Consistent) (group : Id × String) :
    s.eventCountOf group ≤ (attempt k projectId body a s).state.eventCountOf group :=
  exec_eventCountOf_le envelope_calls a.faults hs group

theorem attempt_counted (hs : s.Consistent) (hp : parse k.fromSlice body = .ok parsed)
    (hids : OwnEventIds (eventPayloads k.fromSlice parsed.items)) {response : Response}
    (h : (attempt k projectId body a s).outcome = .ok response) (hok : response.status = 200) :
    CountedOnce k projectId a.request (eventPayloads k.fromSlice parsed.items) s
      (attempt k projectId body a s).state := by
  rw [attempt_parsed hp] at h ⊢
  rcases hrun : sqliteDb.exec (processItems a.issues sqliteEvents k projectId a.request 0 none
    parsed.items) a.faults s with ⟨(e | first) | e | _, s', φ'⟩
  · rw [hrun] at h
    cases h
    rcases failedResponse_status_ne k e hok
  · have hcounted := counted_of_processItems hs hids.carried (congrArg Run.outcome hrun)
    rw [hrun] at hcounted
    exact hcounted.once hids
  · rw [hrun] at h
    cases h
  · rw [hrun] at h
    cases h

/-- An attempt that is answered with 429 has not reached the store, or has counted an event. -/
theorem attempt_deferred (hs : s.Consistent) (hp : parse k.fromSlice body = .ok parsed)
    {response : Response} (h : (attempt k projectId body a s).outcome = .ok response)
    (hbusy : response.status = 429) :
    a.faults 0 ≠ none ∧ (attempt k projectId body a s).state = s ∨ a.faults 0 = none ∧
      ∃ fingerprint, s.eventCountOf (projectId, fingerprint) <
        (attempt k projectId body a s).state.eventCountOf (projectId, fingerprint) := by
  rw [attempt_parsed hp] at h ⊢
  rcases hrun : sqliteDb.exec (processItems a.issues sqliteEvents k projectId a.request 0 none
    parsed.items) a.faults s with ⟨(e | first) | e | _, s', φ'⟩
  · rw [hrun] at h
    cases h
    have hdeferred := processItems_deferred hs ((failedResponse_status k e).mp hbusy)
      (congrArg Run.outcome hrun)
    rwa [hrun] at hdeferred
  · rw [hrun] at h
    cases h
    cases hbusy
  · rw [hrun] at h
    cases h
  · rw [hrun] at h
    cases h

theorem Deferred.counts (hp : parse k.fromSlice body = .ok parsed) (hs : s.Consistent)
    (h : Deferred k projectId body failed s s') :
    s'.Consistent ∧ (∀ group, s.eventCountOf group ≤ s'.eventCountOf group) ∧
      ((∀ a ∈ failed, a.faults 0 ≠ none) ∧ s' = s ∨ (∃ a ∈ failed, a.faults 0 = none) ∧
        ∃ fingerprint, s.eventCountOf (projectId, fingerprint) <
          s'.eventCountOf (projectId, fingerprint)) := by
  induction h with
  | nil s => exact ⟨hs, fun _ => le_rfl, .inl ⟨by simp, rfl⟩⟩
  | @cons a rest s s' response hout hbusy hrest ih =>
    obtain ⟨hs', hle, hcases⟩ := ih (attempt_consistent hs)
    have hmono (group : Id × String) :
        s.eventCountOf group ≤ (attempt k projectId body a s).state.eventCountOf group :=
      attempt_eventCountOf_le hs group
    refine ⟨hs', fun group => (hmono group).trans (hle group), ?_⟩
    rcases attempt_deferred hs hp hout hbusy with ⟨hφ, hsame⟩ | ⟨hφ, fingerprint, hlt⟩
    · rw [hsame] at hcases
      rcases hcases with ⟨hall, heq⟩ | ⟨⟨b, hb, hbφ⟩, hlt⟩
      · exact .inl ⟨List.forall_mem_cons.mpr ⟨hφ, hall⟩, heq⟩
      · exact .inr ⟨⟨b, List.mem_cons_of_mem _ hb, hbφ⟩, hlt⟩
    · exact .inr ⟨⟨a, List.mem_cons_self, hφ⟩, fingerprint, hlt.trans_le (hle _)⟩

end Attempts

/--
After attempts that were deferred and one that was accepted, every event is stored and counted once
iff each deferred attempt failed in its first step.
-/
theorem resend_counts_once_iff (k : Intake) (projectId : Id) (body : List UInt8) (parsed : Envelope)
    (hp : parse k.fromSlice body = .ok parsed)
    (hids : OwnEventIds (eventPayloads k.fromSlice parsed.items)) (failed : List Sending)
    (last : Sending) (s s' : Store) (h : SqliteReachable s)
    (hfailed : Deferred k projectId body failed s s') (response : Response)
    (hlast : (attempt k projectId body last s').outcome = .ok response)
    (hok : response.status = 200) :
    CountedOnce k projectId last.request (eventPayloads k.fromSlice parsed.items) s
        (attempt k projectId body last s').state ↔
      ∀ a ∈ failed, a.faults 0 ≠ none := by
  obtain ⟨hs', -, hcases⟩ := hfailed.counts hp h.consistent
  have hfinal := attempt_counted hs' hp hids hlast hok
  rcases hcases with ⟨hall, rfl⟩ | ⟨⟨a, ha, hφ⟩, fingerprint, hlt⟩
  · exact iff_of_true hfinal hall
  · refine iff_of_false (fun honce => ?_) fun hall => hall a ha hφ
    have h₁ := hfinal.counted fingerprint
    have h₂ := honce.counted fingerprint
    omega

/-- What `serde_json::from_slice` returns on the lines of `oneEventBody`. -/
def oneEventJson (bytes : List UInt8) : Option Value :=
  if bytes = asciiBytes "\x7b\x7d" then some (.object [])
  else if bytes = asciiBytes "\x7b\"type\":\"event\"\x7d" then
    some (.object [("type", .string "event")])
  else if bytes = asciiBytes "\x7b\"event_id\":\"a1\"\x7d" then
    some (.object [("event_id", .string "a1")])
  else none

def oneEventBody : List UInt8 :=
  asciiBytes "\x7b\x7d\n\x7b\"type\":\"event\"\x7d\n\x7b\"event_id\":\"a1\"\x7d"

def oneEventEnvelope : Envelope where
  header := .object []
  items := [⟨.object [("type", .string "event")], asciiBytes "\x7b\"event_id\":\"a1\"\x7d"⟩]

def oneEventIntake : Intake where
  fromSlice := oneEventJson
  parseUserAgent _ := ⟨none, none⟩
  fromValue _ := firstEvent.normalized
  grouping := oneGroup
  busyRetryAfter := 5

theorem parse_oneEventBody : parse oneEventJson oneEventBody = .ok oneEventEnvelope := by
  have hheader : nextLine oneEventBody 0 = some (asciiBytes "\x7b\x7d", 3) := rfl
  have hline : nextLine oneEventBody 3 =
      some (asciiBytes "\x7b\"type\":\"event\"\x7d", 20) := rfl
  have hpayload : readPayload oneEventBody 20 (.object [("type", .string "event")]) =
      .ok (asciiBytes "\x7b\"event_id\":\"a1\"\x7d", 37) := rfl
  have hitems := parseItems_item oneEventJson hline (by decide) rfl hpayload
  rw [parseItems_end oneEventJson (show nextLine oneEventBody 37 = none from rfl)] at hitems
  rw [parse, hheader]
  simp only [hitems]
  rfl

def sending (faults : List (Option Error)) : Sending where
  request := ⟨⟨none, none, none, none⟩, .atSecond 1, fun _ => ""⟩
  ambient _ := quietAmbient
  faults := .ofList faults

def busyDb : Option Error := some (.dbBusy "write" (.db (.sqlite (some 5) "database is locked")))

/-- The store after a sending of the envelope into the store with one project. -/
def sentOnce (faults : List (Option Error)) : Store :=
  (attempt oneEventIntake 0 oneEventBody (sending faults) projectOnly).state

theorem oneEvent_ownEventIds : OwnEventIds (eventPayloads oneEventJson oneEventEnvelope.items) := by
  have hpayloads : eventPayloads oneEventJson oneEventEnvelope.items =
      [.object [("event_id", .string "a1")]] := rfl
  rw [hpayloads]
  exact ⟨by decide, by decide⟩

theorem oneEvent_deferred {faults : List (Option Error)}
    (h : (attempt oneEventIntake 0 oneEventBody (sending faults) projectOnly).outcome =
      .ok (.busy 5)) :
    Deferred oneEventIntake 0 oneEventBody [sending faults] projectOnly (sentOnce faults) :=
  .cons h rfl (.nil _)

theorem resend_counts_once_iff_busyUpsert :
    CountedOnce oneEventIntake 0 (sending []).request
        (eventPayloads oneEventJson oneEventEnvelope.items) projectOnly
        (attempt oneEventIntake 0 oneEventBody (sending []) (sentOnce [busyDb])).state ↔
      ∀ a ∈ [sending [busyDb]], a.faults 0 ≠ none := by
  refine resend_counts_once_iff oneEventIntake 0 oneEventBody oneEventEnvelope parse_oneEventBody
    oneEvent_ownEventIds [sending [busyDb]] (sending []) projectOnly (sentOnce [busyDb])
    projectOnly_reachable (oneEvent_deferred ?_) (.accepted "a1") ?_ rfl
  · rw [attempt_parsed parse_oneEventBody]
    rfl
  · rw [sentOnce, attempt_parsed parse_oneEventBody, attempt_parsed parse_oneEventBody]
    rfl

/-- The event insert of the first sending is busy: the second sending counts the event again. -/
theorem busyInsert_counted_twice :
    SqliteReachable projectOnly ∧
      Deferred oneEventIntake 0 oneEventBody [sending [none, busyDb]] projectOnly
        (sentOnce [none, busyDb]) ∧
      (attempt oneEventIntake 0 oneEventBody (sending []) (sentOnce [none, busyDb])).outcome =
        .ok (.accepted "a1") ∧
      (attempt oneEventIntake 0 oneEventBody (sending []) (sentOnce [none, busyDb])).state.eventCountOf
        (0, "fp") = 2 ∧
      ¬ CountedOnce oneEventIntake 0 (sending []).request
        (eventPayloads oneEventJson oneEventEnvelope.items) projectOnly
        (attempt oneEventIntake 0 oneEventBody (sending []) (sentOnce [none, busyDb])).state := by
  have htwo : (attempt oneEventIntake 0 oneEventBody (sending [])
      (sentOnce [none, busyDb])).state.eventCountOf (0, "fp") = 2 := by
    rw [sentOnce, attempt_parsed parse_oneEventBody, attempt_parsed parse_oneEventBody]
    rfl
  refine ⟨projectOnly_reachable, oneEvent_deferred ?_, ?_, htwo, fun honce => ?_⟩
  · rw [attempt_parsed parse_oneEventBody]
    rfl
  · rw [sentOnce, attempt_parsed parse_oneEventBody, attempt_parsed parse_oneEventBody]
    rfl
  · have hcounted := honce.counted "fp"
    have hnone : projectOnly.eventCountOf (0, "fp") = 0 := rfl
    have hone : (eventPayloads oneEventJson oneEventEnvelope.items).countP
        (fun payload => fingerprintOf oneEventIntake (sending []).request payload = "fp") = 1 := rfl
    rw [htwo, hnone, hone] at hcounted
    cases hcounted

end Soika
