import Soika.Grouping.Pipeline
import Soika.Ingest.Enrich
import Soika.Ingest.Envelope

/-! # Envelope handler

The ingestion endpoint from the decoded body on: every event item of the envelope
goes through the pipeline by itself, and the first failure ends the request with
the answer that tells the SDK whether to send the envelope again.
-/

namespace Soika

open Interaction

inductive Response where
  | accepted (id : String)
  | badRequest (detail : String)
  | busy (retryAfter : ℕ)
  | internalError
  deriving DecidableEq

/-- The HTTP status; a 429 makes an SDK hold the envelope and send it again. -/
def Response.status : Response → ℕ
  | accepted _ => 200
  | badRequest _ => 400
  | busy _ => 429
  | internalError => 500

/-- What the handler takes from the functions it calls, for any of them, and its configuration. -/
structure Intake where
  /-- `serde_json::from_slice` -/
  fromSlice : List UInt8 → Option Value
  parseUserAgent : String → ParsedUa
  /-- `NormalizedEvent::from_value` -/
  fromValue : Value → NormalizedEvent
  grouping : Grouping
  busyRetryAfter : ℕ

/-- What a request brings besides its body, the clock and the random event ids it may draw. -/
structure Request where
  requestMeta : RequestMeta
  now : Timestamp
  newEventId : ℕ → String

/-- An item of type `event`. -/
def isIngestibleEvent (item : EnvelopeItem) : Bool := item.itemType = some "event"

def normalizeEventId (raw : String) : String :=
  String.ofList (((trim raw).toList.filter (· ≠ '-')).map Char.toLower)

/-- The normalized `event_id` of an event payload. -/
def eventIdFromPayload (payload : Value) : Option String :=
  (((payload.get "event_id").bind Value.asStr).map normalizeEventId).filter (· ≠ "")

/-- A locked database asks the SDK to send again, any other error does not. -/
def failedResponse (k : Intake) (e : Error) : Response :=
  if e.isBusy then .busy (max k.busyRetryAfter 1) else .internalError

/-- The input of the pipeline for one event payload; an event without an id gets the `n`-th drawn. -/
def eventInput (k : Intake) (projectId : Id) (r : Request) (n : ℕ) (payload : Value) :
    IngestInput :=
  let payload := enrich k.parseUserAgent r.requestMeta payload
  { projectId := projectId
    eventId := (eventIdFromPayload payload).getD (r.newEventId n)
    normalized := k.fromValue payload
    payload := payload }

section Programs

variable {S : Signature} (issues : ℕ → IssueRepository S) (events : EventRepository S) (k : Intake)
  (projectId : Id) (r : Request)

/-- Persist a single event. What follows the pipeline, a notification, cannot fail the event. -/
def processEvent (n : ℕ) (payload : Value) : Prog S Error String := do
  let input := eventInput k projectId r n payload
  let _ ← ingestNormalized (issues n) events k.grouping input r.now
  return input.eventId

/-- The loop from the `n`-th item on: the first event id accepted, or the error that ends it. -/
def processItems (n : ℕ) (accepted : Option String) :
    List EnvelopeItem → Prog S Error (Except Error (Option String))
  | [] => return .ok accepted
  | item :: rest =>
    if !isIngestibleEvent item then processItems (n + 1) accepted rest
    else
      match item.payloadJson k.fromSlice with
      | .error _ => processItems (n + 1) accepted rest
      | .ok payload => do
        match ← (processEvent issues events k projectId r n payload).result with
        | .ok eventId => processItems (n + 1) (accepted.or (some eventId)) rest
        | .error e => return .error e

def envelope (body : List UInt8) : Prog S Error Response :=
  match parse k.fromSlice body with
  | .error _ => return .badRequest "malformed envelope"
  | .ok parsed => do
    match ← processItems issues events k projectId r 0 none parsed.items with
    | .ok accepted =>
      return .accepted ((accepted.or parsed.headerEventId).getD (r.newEventId parsed.items.length))
    | .error e => return failedResponse k e

end Programs

/-- The payload of an event item; none for the other items and a malformed one. -/
def eventPayload (fromSlice : List UInt8 → Option Value) (item : EnvelopeItem) : Option Value :=
  if isIngestibleEvent item then (item.payloadJson fromSlice).toOption else none

def eventPayloads (fromSlice : List UInt8 → Option Value) (items : List EnvelopeItem) :
    List Value :=
  items.filterMap (eventPayload fromSlice)

theorem failedResponse_status (k : Intake) (e : Error) :
    (failedResponse k e).status = 429 ↔ e.isBusy := by
  unfold failedResponse
  split_ifs with h <;> simp [Response.status, h]

theorem failedResponse_status_ne (k : Intake) (e : Error) : (failedResponse k e).status ≠ 200 := by
  unfold failedResponse
  split_ifs <;> simp [Response.status]

theorem enrich_eventId (k : Intake) (r : Request) (payload : Value) :
    eventIdFromPayload (enrich k.parseUserAgent r.requestMeta payload) =
      eventIdFromPayload payload := by
  rw [eventIdFromPayload, eventIdFromPayload,
    enrich_get _ _ _ (by decide) (by decide) (by decide)]

section Loop

variable {S : Signature} {issues : ℕ → IssueRepository S} {events : EventRepository S} {k : Intake}
  {projectId : Id} {r : Request} {n : ℕ} {accepted : Option String} {item : EnvelopeItem}
  {rest : List EnvelopeItem}

/-- The loop passes over an item that holds no event. -/
theorem processItems_skip (h : eventPayload k.fromSlice item = none) :
    processItems issues events k projectId r n accepted (item :: rest) =
      processItems issues events k projectId r (n + 1) accepted rest := by
  rw [eventPayload] at h
  rw [processItems]
  cases hi : isIngestibleEvent item with
  | false => rfl
  | true =>
    cases hp : item.payloadJson k.fromSlice with
    | error e => rfl
    | ok payload => simp [hi, hp, Except.toOption] at h

theorem processItems_event {payload : Value} (h : eventPayload k.fromSlice item = some payload) :
    processItems issues events k projectId r n accepted (item :: rest) =
      ((processEvent issues events k projectId r n payload).result.bind fun
        | .ok eventId =>
          processItems issues events k projectId r (n + 1) (accepted.or (some eventId)) rest
        | .error e => .ret (.error e)) := by
  rw [eventPayload] at h
  rw [processItems]
  cases hi : isIngestibleEvent item with
  | false => simp [hi] at h
  | true =>
    cases hp : item.payloadJson k.fromSlice with
    | error e => simp [hi, hp, Except.toOption] at h
    | ok p =>
      obtain rfl : p = payload := by simpa [hi, hp, Except.toOption] using h
      rfl

end Loop

end Soika
