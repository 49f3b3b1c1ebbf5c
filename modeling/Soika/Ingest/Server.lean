import Soika.Adapters.Database
import Soika.Domain.User
import Soika.Ingest.Handlers
import Soika.Ingest.RateLimit

/-! # Ingestion endpoints

The envelope and the store endpoint from the request on: the project of the DSN key, the rate
limit, the decoding of the body, and the events. The limiter is asked once for each request
that names a project.
-/

namespace Soika

open Interaction

/-- The first value of each header that has one in visible ASCII, by its name in lower case. -/
abbrev HeaderMap := String → Option String

/-- `str::trim_matches` of one character. -/
def trimMatches (c : Char) (s : String) : String :=
  String.ofList ((s.toList.dropWhile (· = c)).reverse.dropWhile (· = c)).reverse

/-- The `sentry_key` token of an `X-Sentry-Auth` header value. -/
def parseSentryAuthKey (value : String) : Option String :=
  let parts := (value.toList.splitOnP fun c => c = ',' || c = ' ' || c = '\t').map String.ofList
  let tokens := parts.filterMap fun part => splitOnce '=' (trim part)
  let found := tokens.find? fun (k, _) => eqIgnoreAsciiCase (trim k) "sentry_key"
  (found.map fun (_, v) => trimMatches '"' (trim v)).filter (· ≠ "")

/-- The `sentry_key` of a raw query string. -/
def sentryKeyFromQuery (query : String) : Option String :=
  let parts := (query.toList.splitOn '&').map String.ofList
  let found := (parts.filterMap (splitOnce '=')).find? fun (k, _) => k = "sentry_key"
  (found.map fun (_, v) => trim v).filter (· ≠ "")

/-- The DSN public key: of the auth header, else of the query, else of the key header. -/
def extractDsnKey (headers : HeaderMap) (query : Option String) : Option String :=
  match (headers "x-sentry-auth").bind parseSentryAuthKey with
  | some key => some key
  | none =>
    match query.bind sentryKeyFromQuery with
    | some key => some key
    | none => headers "x-sentry-key"

def maxDecompressedBody : ℕ := 20 * 1024 * 1024

inductive DecodeError where
  | corrupt
  | tooLarge
  deriving DecidableEq

/-- What a decoder yields: bytes, and then the end of its stream or an error. -/
structure Inflated where
  bytes : List UInt8
  corrupt : Bool

structure Decoders where
  gzip : List UInt8 → Inflated
  zlib : List UInt8 → Inflated

/-- Read a decoder to the end; one that goes past the bound is not read further. -/
def readCapped (inflated : Inflated) : Except DecodeError (List UInt8) :=
  if maxDecompressedBody < inflated.bytes.length then .error .tooLarge
  else if inflated.corrupt then .error .corrupt
  else .ok inflated.bytes

section Decode

variable (d : Decoders)

/-- Without a known encoding the leading magic bytes decide. -/
def decodeSniffed (body : List UInt8) : Except DecodeError (List UInt8) :=
  match body with
  | 0x1f :: 0x8b :: _ => readCapped (d.gzip body)
  | 0x78 :: flags :: _ =>
    if flags ∈ [0x01, 0x9c, 0xda, 0x5e] then readCapped (d.zlib body) else .ok body
  | _ => .ok body

def decodeBody (headers : HeaderMap) (body : List UInt8) : Except DecodeError (List UInt8) :=
  match (headers "content-encoding").map asciiLowercase with
  | some "gzip" | some "x-gzip" => readCapped (d.gzip body)
  | some "deflate" | some "zlib" => readCapped (d.zlib body)
  | _ => decodeSniffed d body

end Decode

inductive IngestResponse where
  | unauthorized (detail : String)
  | forbidden (error : String)
  | rateLimited (retryAfterSecs : ℕ)
  | payloadTooLarge (detail : String)
  | handled (response : Response)
  deriving DecidableEq

def IngestResponse.status : IngestResponse → ℕ
  | unauthorized _ => 401
  | forbidden _ => 403
  | rateLimited _ => 429
  | payloadTooLarge _ => 413
  | handled response => response.status

structure IngestProject where
  id : Id
  orphanedAt : Option Timestamp

inductive Endpoint where
  | envelope
  | store
  deriving DecidableEq

/-- A request at an ingestion endpoint, and what its handler reads from outside the store. -/
structure Arrival where
  endpoint : Endpoint
  headers : HeaderMap
  query : Option String
  body : List UInt8
  /-- `find_by_dsn` on the projects table of the moment. -/
  findByDsn : String → Except Error (Option IngestProject)
  /-- The instant of the limiter's clock. -/
  checkedAt : ℕ
  request : Request
  ambient : ℕ → Ambient
  faults : Faults Error

structure IngestConfig where
  intake : Intake
  decoders : Decoders
  limiter : RateLimiter

/-- What the preamble answers for an authorized request that it does not pass on. -/
def decodeRefusal : DecodeError → IngestResponse
  | .tooLarge => .payloadTooLarge "decompressed body too large"
  | .corrupt => .handled (.badRequest "could not decode body")

/-- Resolve the project from the DSN key, apply the rate limit, decode the body. -/
def authorizeAndDecode (cfg : IngestConfig) (a : Arrival) (windows : Windows) :
    Except IngestResponse (IngestProject × List UInt8) × Windows :=
  match extractDsnKey a.headers a.query with
  | none => (.error (.unauthorized "missing sentry key"), windows)
  | some dsnKey =>
    match a.findByDsn dsnKey with
    | .error _ => (.error (.handled .internalError), windows)
    | .ok none => (.error (.unauthorized "unknown sentry key"), windows)
    | .ok (some project) =>
      let (decision, windows) := cfg.limiter.checkAt (toString project.id) a.checkedAt windows
      -- A read-only project is refused either way; its check is only there to limit the log.
      if project.orphanedAt.isSome then (.error (.forbidden "project is read-only"), windows)
      else
        match decision with
        | .limited retryAfterSecs => (.error (.rateLimited retryAfterSecs), windows)
        | .allow =>
          match decodeBody cfg.decoders a.headers a.body with
          | .ok decoded => (.ok (project, decoded), windows)
          | .error e => (.error (decodeRefusal e), windows)

section Programs

variable {S : Signature} (issues : ℕ → IssueRepository S) (events : EventRepository S) (k : Intake)
  (projectId : Id) (r : Request)

/-- The legacy endpoint on a decoded body, which is one event payload. -/
def store (body : List UInt8) : Prog S Error Response :=
  match k.fromSlice body with
  | none => return .badRequest "malformed event payload"
  | some payload => do
    match ← (processEvent issues events k projectId r 0 payload).result with
    | .ok eventId => return .accepted eventId
    | .error e => return failedResponse k e

def Endpoint.handle (endpoint : Endpoint) (body : List UInt8) : Prog S Error Response :=
  match endpoint with
  | .envelope => Soika.envelope issues events k projectId r body
  | .store => Soika.store issues events k projectId r body

end Programs

/-- What a server process keeps between requests: its limiter's counters, and the database. -/
structure IngestServer where
  windows : Windows
  store : Store

def handledOutcome : Interaction.Outcome Error Response → Interaction.Outcome Error IngestResponse
  | .ok response => .ok (.handled response)
  | .err e => .err e
  | .panic => .panic

/-- Serve a request: the answer, unless the process aborts, and the state after it. -/
def Arrival.serve (cfg : IngestConfig) (db : Database) (a : Arrival) (server : IngestServer) :
    Interaction.Outcome Error IngestResponse × IngestServer :=
  match authorizeAndDecode cfg a server.windows with
  | (.error response, windows) => (.ok response, { server with windows := windows })
  | (.ok (project, decoded), windows) =>
    let run := db.machine.exec (a.endpoint.handle (fun n => db.issues (a.ambient n)) db.events
      cfg.intake project.id a.request decoded) a.faults server.store
    (handledOutcome run.outcome, ⟨windows, run.state⟩)

end Soika
