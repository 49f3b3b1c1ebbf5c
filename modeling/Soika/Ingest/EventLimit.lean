import Soika.Grouping.Accounting
import Soika.Ingest.Resend
import Soika.Ingest.Server
import Soika.Library.Spending

/-! # The event limit

The limiter counts requests and an envelope holds any number of events, so what bounds the
events of a window is the limit only where no request carries more than one.
-/

namespace Soika

open Interaction

def Store.eventsOf (s : Store) (projectId : Id) : ℕ :=
  s.events.countP fun e => e.projectId = projectId

/-- The events that a decoded body brings to an endpoint. -/
def Endpoint.payloads (fromSlice : List UInt8 → Option Value) (body : List UInt8) :
    Endpoint → List Value
  | .envelope =>
    match parse fromSlice body with
    | .ok parsed => eventPayloads fromSlice parsed.items
    | .error _ => []
  | .store => (fromSlice body).toList

namespace Arrival

variable (cfg : IngestConfig) (a : Arrival)

/-- The events that a request carries. -/
def payloads : List Value :=
  match decodeBody cfg.decoders a.headers a.body with
  | .ok body => a.endpoint.payloads cfg.intake.fromSlice body
  | .error _ => []

/-- The project that the DSN key of a request names. -/
def project : Option IngestProject :=
  (extractDsnKey a.headers a.query).bind fun dsnKey =>
    match a.findByDsn dsnKey with
    | .ok project => project
    | .error _ => none

/-- The check that a request puts to the limiter. -/
def call : Option (ℕ × String) := a.project.map fun p => (a.checkedAt, toString p.id)

end Arrival

structure Served where
  arrival : Arrival
  before : IngestServer
  after : IngestServer

/-- The requests of a process one after the other; an abort ends the process. -/
def serveAll (cfg : IngestConfig) (db : Database) : IngestServer → List Arrival → List Served
  | _, [] => []
  | server, a :: as =>
    match a.serve cfg db server with
    | (.panic, after) => [⟨a, server, after⟩]
    | (_, after) => ⟨a, server, after⟩ :: serveAll cfg db after as

namespace Served

variable (limiter : RateLimiter) (projectId : Id) (r : Served)

def stored : ℕ := r.after.store.eventsOf projectId - r.before.store.eventsOf projectId

def countedIn (start : ℕ) : Bool :=
  r.arrival.call.any fun call => call.2 = toString projectId &&
    (limiter.check r.before.windows call).windowStart = start

end Served

/-- The events of a project that were stored within one of its windows. -/
def storedIn (limiter : RateLimiter) (projectId : Id) (start : ℕ) (h : List Served) : ℕ :=
  ((h.filter fun r => r.countedIn limiter projectId start).map fun r => r.stored projectId).sum

/-- Up to so many events were stored, all of them of one project, and none deleted. -/
def Adds (projectId : Id) (n : ℕ) (s s' : Store) : Prop :=
  ∃ added, s'.events = s.events ++ added ∧ added.length ≤ n ∧ ∀ e ∈ added, e.projectId = projectId

section Adds

variable {projectId : Id} {n : ℕ} {s s' : Store}

theorem Adds.of_events_eq (h : s'.events = s.events) : Adds projectId n s s' :=
  ⟨[], by rw [h, List.append_nil], Nat.zero_le n, fun _ he => absurd he List.not_mem_nil⟩

theorem spending_adds (projectId : Id) : Spending (Adds projectId) where
  refl _ _ := .of_events_eq rfl
  trans := by
    rintro n k s t u ⟨first, hfirst, hn, hfirstOf⟩ ⟨second, hsecond, hk, hsecondOf⟩
    refine ⟨first ++ second, ?_, ?_, ?_⟩
    · rw [hsecond, hfirst, List.append_assoc]
    · rw [List.length_append]
      exact Nat.add_le_add hn hk
    · intro e he
      rcases List.mem_append.mp he with he | he
      · exact hfirstOf e he
      · exact hsecondOf e he

theorem Adds.eventsOf_le (h : Adds projectId n s s') (other : Id) :
    s.eventsOf other ≤ s'.eventsOf other ∧
      s'.eventsOf other ≤ s.eventsOf other + if other = projectId then n else 0 := by
  obtain ⟨added, hevents, hn, hof⟩ := h
  simp only [Store.eventsOf, hevents, List.countP_append]
  refine ⟨Nat.le_add_right _ _, Nat.add_le_add_left ?_ _⟩
  split
  · exact List.countP_le_length.trans hn
  · rename_i hne
    refine (List.countP_eq_zero.mpr fun e he => ?_).le
    have heq := hof e he
    simpa [heq] using fun h => hne h.symm

end Adds

section Repositories

variable {db : Database} {projectId : Id} {n : ℕ}

theorem statement_adds {c : StoreCmd} (h : ∀ s, Adds projectId n s (storeStep db.backend c s).2) :
    db.machine.Spends (Adds projectId) n (db.statement c) := by
  intro φ s
  rw [db.exec_statement]
  have hstep := h s
  cases φ 0 with
  | some e => exact (spending_adds projectId).refl n s
  | none =>
    rcases hc : storeStep db.backend c s with ⟨_ | _, s'⟩ <;> rw [hc] at hstep <;> exact hstep

theorem insertEvent_adds {new : NewEvent} (h : new.projectId = projectId) :
    db.machine.Spends (Adds projectId) 1 (db.events.insert new) := by
  refine statement_adds fun s => ?_
  simp only [storeStep, insertEvent]
  split
  · refine ⟨[new.row db.backend s.nextId], rfl, le_rfl, fun e he => ?_⟩
    obtain rfl := List.mem_singleton.mp he
    exact h
  · exact .of_events_eq rfl

theorem commit_events {α : Type} {r : Except Error (α × Store)} {s : Store}
    (h : ∀ a s', r = .ok (a, s') → s'.events = s.events) : (commit r s).2.events = s.events := by
  rcases r with _ | ⟨a, s'⟩
  · rfl
  · exact h a s' rfl

theorem lockAndBump_events {u : IssueUpsert} (s : Store) :
    (pgStep (.lockAndBump u) s).2.events = s.events := by
  refine commit_events fun outcome s' h => ?_
  rcases lockAndBump_eq_ok.mp h with ⟨row, out, -, -, hb, -⟩ | ⟨-, -, rfl⟩
  · obtain ⟨-, -, rfl⟩ := bumpExisting_eq_ok.mp hb
    rfl
  · rfl

theorem insertOrIgnore_events {u : IssueUpsert} {draws : ℕ → String} (s : Store) :
    (pgStep (.insertOrIgnore u draws) s).2.events = s.events := by
  refine commit_events fun outcome s' h => ?_
  rcases insertOrIgnore_eq_ok.mp h with ⟨-, out, hi, -⟩ | ⟨-, -, -, rfl⟩
  · obtain ⟨-, -, -, -, -, rfl⟩ := insertIssue_eq_ok.mp hi
    rfl
  · rfl

theorem upsert_adds (hdb : db = sqliteDatabase ∨ db = pgDatabase) (ambient : Ambient)
    (u : IssueUpsert) : db.machine.Spends (Adds projectId) 0 (db.upsert ambient u) := by
  have spending := spending_adds projectId
  rcases hdb with rfl | rfl
  · refine Machine.Spends.ask spending fun s => .of_events_eq ?_
    exact commit_events fun o s' h => (upsertOnce_events h).1
  · have hbump : pgDb.Spends (Adds projectId) 0 (onPg (.lockAndBump u)) :=
      Machine.Spends.ask spending fun s => .of_events_eq (lockAndBump_events s)
    have hinsert (draws : ℕ → String) :
        pgDb.Spends (Adds projectId) 0 (onPg (.insertOrIgnore u draws)) :=
      Machine.Spends.ask spending fun s => .of_events_eq (insertOrIgnore_events s)
    have honce (draws : ℕ → String) : pgDb.Spends (Adds projectId) 0 (pgUpsertOnce u draws) := by
      refine hbump.bind spending (k := 0) fun found => ?_
      cases found with
      | some outcome => exact .ret spending _
      | none =>
        refine (hinsert draws).bind spending (k := 0) fun inserted => ?_
        cases inserted with
        | some outcome => exact .ret spending _
        | none => exact hbump
    suffices hall : ∀ rounds, pgDb.Spends (Adds projectId) 0
        (pgUpsertByFingerprint u ambient.draws rounds) from hall raceAttempts
    intro rounds
    induction rounds with
    | zero => exact .fail spending _
    | succ rounds ih =>
      refine (honce _).bind spending (k := 0) fun outcome => ?_
      cases outcome with
      | some outcome => exact .ret spending _
      | none => exact ih

end Repositories

section Handlers

variable {db : Database} {k : Intake} {projectId : Id} {r : Request} {ambient : ℕ → Ambient}

theorem resurfaceOn_adds (ambient : Ambient) (issueId : Id) (check : RateCheck) :
    db.machine.Spends (Adds projectId) 0 (resurfaceOn (db.issues ambient) db.events issueId check) := by
  have spending := spending_adds projectId
  cases check with
  | skip => exact .ret spending _
  | overflow => exact .abort spending
  | count threshold since =>
    refine (statement_adds fun s => .of_events_eq rfl).bind spending (k := 0) fun count => ?_
    split
    · exact .ret spending _
    · refine (statement_adds fun s => ?_).bind spending (k := 0) fun unmuted => .ret spending _
      exact .of_events_eq (updateReturning_events _ _ s)

theorem ingestNormalized_adds (hdb : db = sqliteDatabase ∨ db = pgDatabase) (ambient : Ambient)
    (G : Grouping) (input : IngestInput) (now : Timestamp) (hinput : input.projectId = projectId) :
    db.machine.Spends (Adds projectId) 1
      (ingestNormalized (db.issues ambient) db.events G input now) := by
  have spending := spending_adds projectId
  rw [ingestNormalized_eq]
  refine (upsert_adds hdb ambient _).bind spending (k := 1) fun upsert => ?_
  refine (insertEvent_adds hinput).bind spending (k := 0) fun event => ?_
  exact (resurfaceOn_adds ambient _ _).bind spending (k := 0) fun _ => .ret spending _

theorem processEvent_adds (hdb : db = sqliteDatabase ∨ db = pgDatabase) (n : ℕ) (payload : Value) :
    db.machine.Spends (Adds projectId) 1
      (processEvent (fun n => db.issues (ambient n)) db.events k projectId r n payload) :=
  (ingestNormalized_adds hdb (ambient n) k.grouping _ r.now rfl).bind (spending_adds projectId)
    (k := 0) fun _ => .ret (spending_adds projectId) _

theorem processItems_adds (hdb : db = sqliteDatabase ∨ db = pgDatabase) (items : List EnvelopeItem) :
    ∀ n accepted, db.machine.Spends (Adds projectId) (eventPayloads k.fromSlice items).length
      (processItems (fun n => db.issues (ambient n)) db.events k projectId r n accepted items) := by
  have spending := spending_adds projectId
  induction items with
  | nil => exact fun _ _ => .ret spending _
  | cons item rest ih =>
    intro n accepted
    cases hp : eventPayload k.fromSlice item with
    | none =>
      rw [processItems_skip hp, eventPayloads_skip hp]
      exact ih (n + 1) accepted
    | some payload =>
      rw [processItems_event hp, eventPayloads_event hp, List.length_cons, Nat.add_comm]
      refine (processEvent_adds hdb n payload).result.bind spending fun outcome => ?_
      cases outcome with
      | ok eventId => exact ih (n + 1) _
      | error e => exact .ret spending _

/-- An endpoint stores at most as many events as its body carries. -/
theorem handle_adds (hdb : db = sqliteDatabase ∨ db = pgDatabase) (endpoint : Endpoint)
    (body : List UInt8) :
    db.machine.Spends (Adds projectId) (endpoint.payloads k.fromSlice body).length
      (endpoint.handle (fun n => db.issues (ambient n)) db.events k projectId r body) := by
  have spending := spending_adds projectId
  cases endpoint with
  | envelope =>
    unfold Endpoint.handle Endpoint.payloads envelope
    cases parse k.fromSlice body with
    | error e => exact .ret spending _
    | ok parsed =>
      refine (processItems_adds hdb parsed.items 0 none).bind spending (k := 0) fun outcome => ?_
      cases outcome with
      | ok accepted => exact .ret spending _
      | error e => exact .ret spending _
  | store =>
    unfold Endpoint.handle Endpoint.payloads store
    cases k.fromSlice body with
    | none => exact .ret spending _
    | some payload =>
      refine (processEvent_adds hdb 0 payload).result.bind spending (k := 0) fun outcome => ?_
      cases outcome with
      | ok eventId => exact .ret spending _
      | error e => exact .ret spending _

end Handlers

section Serve

variable {cfg : IngestConfig} {db : Database} {a : Arrival} {server : IngestServer}

theorem authorizeAndDecode_windows (windows : Windows) : (authorizeAndDecode cfg a windows).2 =
    match a.call with
    | some call => cfg.limiter.step windows call
    | none => windows := by
  unfold authorizeAndDecode Arrival.call Arrival.project
  cases extractDsnKey a.headers a.query with
  | none => rfl
  | some dsnKey =>
    simp only [Option.bind_some]
    rcases a.findByDsn dsnKey with _ | _ | project
    · rfl
    · rfl
    · simp only [Option.map_some, RateLimiter.step]
      rcases cfg.limiter.checkAt (toString project.id) a.checkedAt windows with ⟨_ | secs, after⟩
      · dsimp only
        split
        · rfl
        · cases decodeBody cfg.decoders a.headers a.body <;> rfl
      · dsimp only
        split <;> rfl

theorem authorizeAndDecode_eq_ok {windows : Windows} {project : IngestProject} {body : List UInt8}
    (h : (authorizeAndDecode cfg a windows).1 = .ok (project, body)) :
    a.project = some project ∧ decodeBody cfg.decoders a.headers a.body = .ok body ∧
      (cfg.limiter.check windows (a.checkedAt, toString project.id)).decision = .allow := by
  unfold authorizeAndDecode at h
  unfold Arrival.project
  cases hkey : extractDsnKey a.headers a.query with
  | none =>
    rw [hkey] at h
    cases h
  | some dsnKey =>
    simp only [hkey, Option.bind_some] at h ⊢
    rcases hfound : a.findByDsn dsnKey with _ | _ | found
    · rw [hfound] at h
      cases h
    · rw [hfound] at h
      cases h
    · simp only [hfound] at h ⊢
      rcases hcheck : cfg.limiter.checkAt (toString found.id) a.checkedAt windows with
        ⟨_ | secs, after⟩ <;> simp only [hcheck] at h <;> split at h
      · cases h
      · cases hbody : decodeBody cfg.decoders a.headers a.body with
        | error e =>
          rw [hbody] at h
          cases h
        | ok decoded =>
          rw [hbody] at h
          obtain ⟨rfl, rfl⟩ := Prod.mk.inj (Except.ok.inj h)
          exact ⟨rfl, rfl, congrArg Prod.fst hcheck⟩
      · cases h
      · cases h

/-- A request stores nothing, or it was allowed and stores up to the events it carries. -/
theorem serve_adds (hdb : db = sqliteDatabase ∨ db = pgDatabase) (a : Arrival) (server : IngestServer) :
    (a.serve cfg db server).2.store = server.store ∨ ∃ project, a.project = some project ∧
      (cfg.limiter.check server.windows (a.checkedAt, toString project.id)).decision = .allow ∧
      Adds project.id (a.payloads cfg).length server.store (a.serve cfg db server).2.store := by
  unfold Arrival.serve
  rcases h : authorizeAndDecode cfg a server.windows with ⟨_ | ⟨project, body⟩, windows⟩
  · exact .inl rfl
  · obtain ⟨hproject, hbody, hallow⟩ := authorizeAndDecode_eq_ok (congrArg Prod.fst h)
    refine .inr ⟨project, hproject, hallow, ?_⟩
    rw [Arrival.payloads, hbody]
    exact handle_adds hdb a.endpoint body a.faults server.store

variable (cfg db a server) in
theorem serve_windows : (a.serve cfg db server).2.windows =
    match a.call with
    | some call => cfg.limiter.step server.windows call
    | none => server.windows := by
  rw [← authorizeAndDecode_windows, Arrival.serve]
  rcases authorizeAndDecode cfg a server.windows with ⟨_ | ⟨project, body⟩, windows⟩ <;> rfl

end Serve

section Requests

variable {cfg : IngestConfig} {db : Database} {a : Arrival} {server : IngestServer} {projectId : Id}
  {start : ℕ}

theorem storedIn_cons (limiter : RateLimiter) (r : Served) (h : List Served) :
    storedIn limiter projectId start (r :: h) =
      (if r.countedIn limiter projectId start then r.stored projectId else 0) +
        storedIn limiter projectId start h := by
  simp only [storedIn, List.filter_cons]
  split
  · rw [List.map_cons, List.sum_cons]
  · rw [Nat.zero_add]

theorem storedIn_serveAll_le (as : List Arrival) :
    storedIn cfg.limiter projectId start (serveAll cfg db server (a :: as)) ≤
      (if (Served.mk a server (a.serve cfg db server).2).countedIn cfg.limiter projectId start
        then (Served.mk a server (a.serve cfg db server).2).stored projectId else 0) +
      storedIn cfg.limiter projectId start (serveAll cfg db (a.serve cfg db server).2 as) := by
  rw [serveAll]
  split
  · rename_i after hserve
    rw [hserve, storedIn_cons]
    exact Nat.add_le_add_left (Nat.zero_le _) _
  · rename_i outcome after hpanic hserve
    rw [hserve, storedIn_cons]

variable (start server) in
/-- A request with at most one event of the project stores it only with a check that allows it. -/
theorem stored_le_allowed (hdb : db = sqliteDatabase ∨ db = pgDatabase)
    (hsingle : a.project.any (fun p => p.id = projectId) → (a.payloads cfg).length ≤ 1)
    {call : ℕ × String} (hcall : a.call = some call) :
    (if (Served.mk a server (a.serve cfg db server).2).countedIn cfg.limiter projectId start
      then (Served.mk a server (a.serve cfg db server).2).stored projectId else 0) ≤
    if call.2 = toString projectId ∧ (cfg.limiter.check server.windows call).decision = .allow ∧
      (cfg.limiter.check server.windows call).windowStart = start then 1 else 0 := by
  split
  · rename_i hcounted
    obtain ⟨hkey, hstart⟩ : call.2 = toString projectId ∧
        (cfg.limiter.check server.windows call).windowStart = start := by
      simpa [Served.countedIn, hcall] using hcounted
    rcases serve_adds hdb a server with hsame | ⟨project, hproject, hallow, hadds⟩
    · rw [Served.stored, hsame, Nat.sub_self]
      exact Nat.zero_le _
    · obtain rfl : call = (a.checkedAt, toString project.id) := by
        rw [Arrival.call, hproject] at hcall
        exact (Option.some.inj hcall).symm
      rw [if_pos ⟨hkey, hallow, hstart⟩, Served.stored]
      have hle := (hadds.eventsOf_le projectId).2
      dsimp only
      split at hle
      · rename_i hid
        have hone := hsingle (by simp [hproject, hid])
        omega
      · omega
  · exact Nat.zero_le _

theorem storedIn_le_allowedIn (hdb : db = sqliteDatabase ∨ db = pgDatabase)
    {requests : List Arrival} (hsingle : ∀ a ∈ requests, a.project.any (fun p => p.id = projectId) →
      (a.payloads cfg).length ≤ 1) (server : IngestServer) :
    storedIn cfg.limiter projectId start (serveAll cfg db server requests) ≤
      RateLimiter.allowedIn (toString projectId) start
        (cfg.limiter.checksFrom server.windows (requests.filterMap Arrival.call)) := by
  induction requests generalizing server with
  | nil => exact Nat.zero_le _
  | cons a as ih =>
    refine (storedIn_serveAll_le as).trans ?_
    have hrest := ih (fun b hb => hsingle b (List.mem_cons_of_mem _ hb)) (a.serve cfg db server).2
    have hwindows := serve_windows cfg db a server
    cases hcall : a.call with
    | none =>
      have hnot : (Served.mk a server (a.serve cfg db server).2).countedIn cfg.limiter projectId
          start = false := by
        simp [Served.countedIn, hcall]
      rw [hcall] at hwindows
      rw [hnot, List.filterMap_cons_none hcall]
      rw [hwindows] at hrest
      simpa using hrest
    | some call =>
      rw [hcall] at hwindows
      rw [hwindows] at hrest
      rw [List.filterMap_cons_some hcall, RateLimiter.checksFrom, RateLimiter.allowedIn,
        List.countP_cons, Nat.add_comm]
      refine Nat.add_le_add hrest ?_
      have hhead := stored_le_allowed server start hdb (hsingle a List.mem_cons_self) hcall
      simpa [RateLimiter.check] using hhead

end Requests

/--
Where no request to a project carries more than one event, the events of the project that are stored
within one of its windows are no more than the limit.
-/
theorem storedIn_le_limit (cfg : IngestConfig) (hwindow : 0 < cfg.limiter.window) (db : Database)
    (hdb : db = sqliteDatabase ∨ db = pgDatabase) (store : Store) (requests : List Arrival)
    (hclock : RateLimiter.Ordered (requests.filterMap Arrival.call)) (projectId : Id)
    (hsingle : ∀ a ∈ requests, a.project.any (fun p => p.id = projectId) →
      (a.payloads cfg).length ≤ 1) (start : ℕ) :
    storedIn cfg.limiter projectId start (serveAll cfg db ⟨.empty, store⟩ requests) ≤
      cfg.limiter.limit := by
  obtain ⟨now, t⟩ := RateLimiter.Tracks.of_ordered hwindow (toString projectId) hclock
  exact (storedIn_le_allowedIn hdb hsingle ⟨.empty, store⟩).trans (t.within start)

def twoEventBody : List UInt8 :=
  oneEventBody ++ asciiBytes "\n\x7b\"type\":\"event\"\x7d\n\x7b\"event_id\":\"a1\"\x7d"

theorem parse_twoEventBody : parse oneEventJson twoEventBody =
    .ok ⟨.object [], oneEventEnvelope.items ++ oneEventEnvelope.items⟩ := by
  have hheader : nextLine twoEventBody 0 = some (asciiBytes "\x7b\x7d", 3) := rfl
  have hline : nextLine twoEventBody 3 =
      some (asciiBytes "\x7b\"type\":\"event\"\x7d", 20) := rfl
  have hpayload : readPayload twoEventBody 20 (.object [("type", .string "event")]) =
      .ok (asciiBytes "\x7b\"event_id\":\"a1\"\x7d", 38) := rfl
  have hline' : nextLine twoEventBody 38 =
      some (asciiBytes "\x7b\"type\":\"event\"\x7d", 55) := rfl
  have hpayload' : readPayload twoEventBody 55 (.object [("type", .string "event")]) =
      .ok (asciiBytes "\x7b\"event_id\":\"a1\"\x7d", 72) := rfl
  have hitems := parseItems_item oneEventJson hline (by decide) rfl hpayload
  rw [parseItems_item oneEventJson hline' (by decide) rfl hpayload',
    parseItems_end oneEventJson (show nextLine twoEventBody 72 = none from rfl)] at hitems
  rw [parse, hheader]
  simp only [hitems]
  rfl

def oneAMinute : IngestConfig where
  intake := oneEventIntake
  decoders := ⟨fun _ => ⟨[], true⟩, fun _ => ⟨[], true⟩⟩
  limiter := ⟨1, 60000000000⟩

def arrivalOf (body : List UInt8) : Arrival where
  endpoint := .envelope
  headers name := if name = "x-sentry-key" then some "key" else none
  query := none
  body := body
  findByDsn _ := .ok (some ⟨0, none⟩)
  checkedAt := 0
  request := (sending []).request
  ambient := (sending []).ambient
  faults := (sending []).faults

theorem arrivalOf_payloads {body : List UInt8} {parsed : Envelope}
    (hparse : parse oneEventJson body = .ok parsed)
    (hplain : decodeBody oneAMinute.decoders (arrivalOf body).headers body = .ok body) :
    (arrivalOf body).payloads oneAMinute = eventPayloads oneEventJson parsed.items := by
  have hpayloads : (arrivalOf body).payloads oneAMinute =
      Endpoint.payloads oneEventJson body .envelope := by
    rw [Arrival.payloads, show (arrivalOf body).body = body from rfl, hplain]
    rfl
  rw [hpayloads, Endpoint.payloads, hparse]

theorem serve_arrivalOf {body : List UInt8}
    (hplain : decodeBody oneAMinute.decoders (arrivalOf body).headers body = .ok body) :
    (arrivalOf body).serve oneAMinute sqliteDatabase ⟨.empty, projectOnly⟩ =
      (handledOutcome (attempt oneEventIntake 0 body (sending []) projectOnly).outcome,
        ⟨oneAMinute.limiter.step .empty (0, toString 0),
          (attempt oneEventIntake 0 body (sending []) projectOnly).state⟩) := by
  have hpreamble : authorizeAndDecode oneAMinute (arrivalOf body) .empty =
      (.ok (⟨0, none⟩, body), oneAMinute.limiter.step .empty (0, toString 0)) := by
    have hcheck : oneAMinute.limiter.checkAt (toString 0) 0 .empty =
        (.allow, oneAMinute.limiter.step .empty (0, toString 0)) := rfl
    have hkey : extractDsnKey (arrivalOf body).headers none = some "key" := rfl
    unfold authorizeAndDecode
    simp only [arrivalOf] at hkey hplain ⊢
    simp only [hkey, hcheck, hplain, Option.isSome_none, Bool.false_eq_true, if_false]
  rw [Arrival.serve, hpreamble]
  rfl

/-- Two envelopes with one event each: the second is limited. -/
theorem storedIn_le_limit_oneEvent :
    storedIn oneAMinute.limiter 0 0 (serveAll oneAMinute sqliteDatabase ⟨.empty, projectOnly⟩
      [arrivalOf oneEventBody, arrivalOf oneEventBody]) ≤ oneAMinute.limiter.limit := by
  refine storedIn_le_limit oneAMinute (by decide) sqliteDatabase (.inl rfl) projectOnly _ ?_ 0 ?_ 0
  · have hcalls : [arrivalOf oneEventBody, arrivalOf oneEventBody].filterMap Arrival.call =
        [(0, toString 0), (0, toString 0)] := rfl
    rw [hcalls]
    simp [RateLimiter.Ordered]
  · intro a ha _
    obtain rfl : a = arrivalOf oneEventBody := by simpa using ha
    rw [arrivalOf_payloads parse_oneEventBody rfl]
    decide

/-- One envelope with two events is one request: both are stored in a window of limit one. -/
theorem twoEvents_exceed_limit :
    SqliteReachable projectOnly ∧
      RateLimiter.Ordered ([arrivalOf twoEventBody].filterMap Arrival.call) ∧
      oneAMinute.limiter.limit < storedIn oneAMinute.limiter 0 0 (serveAll oneAMinute sqliteDatabase
        ⟨.empty, projectOnly⟩ [arrivalOf twoEventBody]) := by
  refine ⟨projectOnly_reachable, List.pairwise_singleton _ _, ?_⟩
  have hrun : attempt oneEventIntake 0 twoEventBody (sending []) projectOnly =
      ⟨.ok (.accepted "a1"), (attempt oneEventIntake 0 twoEventBody (sending []) projectOnly).state,
        .none⟩ := by
    rw [attempt_parsed parse_twoEventBody]
    rfl
  have htwo : (attempt oneEventIntake 0 twoEventBody (sending []) projectOnly).state.eventsOf 0 =
      2 := by
    rw [attempt_parsed parse_twoEventBody]
    rfl
  have hserve : (arrivalOf twoEventBody).serve oneAMinute sqliteDatabase ⟨.empty, projectOnly⟩ =
      (.ok (.handled (.accepted "a1")), ⟨oneAMinute.limiter.step .empty (0, toString 0),
        (attempt oneEventIntake 0 twoEventBody (sending []) projectOnly).state⟩) := by
    rw [serve_arrivalOf rfl, hrun]
    rfl
  have hcounted (after : IngestServer) : (Served.mk (arrivalOf twoEventBody) ⟨.empty, projectOnly⟩
      after).countedIn oneAMinute.limiter 0 0 = true := rfl
  rw [serveAll, hserve]
  simp only [serveAll]
  rw [storedIn_cons, hcounted, if_pos rfl, Served.stored, htwo]
  decide

end Soika
