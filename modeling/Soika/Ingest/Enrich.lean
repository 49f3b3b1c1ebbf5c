import Mathlib.Tactic.SplitIfs
import Soika.Domain.Json

/-! # Event enrichment

What the server adds to an event payload from the request that brought it: the
client's address, browser and operating system, and the request interface. Only
the members `user`, `contexts` and `request` of a payload can change.
-/

namespace Soika

/-- The members of a JSON object, a `serde_json::Map`. -/
abbrev Members := List (String × Value)

namespace Members

def get (object : Members) (key : String) : Option Value := (Value.object object).get key

def containsKey (object : Members) (key : String) : Bool := object.any fun m => m.1 = key

/-- `Map::insert`, at its place in the order of keys. -/
def insert (key : String) (value : Value) : Members → Members
  | [] => [(key, value)]
  | (k, v) :: rest =>
    if k = key then (key, value) :: rest
    else if key < k then (key, value) :: (k, v) :: rest
    else (k, v) :: insert key value rest

def insertIfAbsent (key : String) (value : Option String) (object : Members) : Members :=
  match value with
  | some text => if object.containsKey key then object else object.insert key (.string text)
  | none => object

/-- `ensure_object` and what is done with the object: a member that is none is replaced by one. -/
def withObject (key : String) (f : Members → Members) (parent : Members) : Members :=
  match parent.get key with
  | some (.object object) => parent.insert key (.object (f object))
  | _ => parent.insert key (.object (f []))

theorem get_cons (m : String × Value) (object : Members) (key : String) :
    get (m :: object) key = if m.1 = key then some m.2 else object.get key := by
  by_cases h : m.1 = key <;> simp [get, Value.get, h]

theorem get_insert_ne {key key' : String} (h : key' ≠ key) (value : Value) (object : Members) :
    (object.insert key value).get key' = object.get key' := by
  induction object with
  | nil => simp [insert, get_cons, h.symm]
  | cons m rest ih =>
    rw [insert]
    split_ifs with hk
    · simp [get_cons, hk, h.symm]
    · simp [get_cons, h.symm]
    · simp [get_cons, ih]

theorem get_withObject_ne {key key' : String} (h : key' ≠ key) (f : Members → Members)
    (parent : Members) : (parent.withObject key f).get key' = parent.get key' := by
  unfold withObject
  split <;> exact get_insert_ne h _ _

end Members

/-- `{{auto}}`, which asks the server to fill in the address. -/
def autoIp : String := "\x7b\x7bauto\x7d\x7d"

structure RequestMeta where
  clientIp : Option String
  userAgent : Option String
  referer : Option String
  acceptLanguage : Option String

abbrev Product := String × Option String

structure ParsedUa where
  browser : Option Product
  os : Option Product

namespace Members

/-- Set `user.ip_address` when missing, empty, or the `{{auto}}` sentinel. -/
def setIpAddress (ip : String) : Members → Members :=
  withObject "user" fun user =>
    match (user.get "ip_address").bind Value.asStr with
    | some existing =>
      if existing ≠ autoIp ∧ trim existing ≠ "" then user
      else user.insert "ip_address" (.string ip)
    | none => user.insert "ip_address" (.string ip)

/-- Insert a `{ type, name, version }` entry when absent. -/
def setNamedContext (key : String) (product : Product) (contexts : Members) : Members :=
  if contexts.containsKey key then contexts
  else
    let entry := (insert "type" (.string key) []).insert "name" (.string product.1)
    contexts.insert key (.object (match product.2 with
      | some version => entry.insert "version" (.string version)
      | none => entry))

/-- Fill `contexts.browser` and `contexts.os` if absent. -/
def setUaContexts (parsed : ParsedUa) (event : Members) : Members :=
  if parsed.browser.isNone && parsed.os.isNone then event
  else
    event.withObject "contexts" fun contexts =>
      let contexts := match parsed.browser with
        | some product => contexts.setNamedContext "browser" product
        | none => contexts
      match parsed.os with
      | some product => contexts.setNamedContext "os" product
      | none => contexts

/-- Fill the `request` interface; existing keys are preserved. -/
def setRequest (request : RequestMeta) (event : Members) : Members :=
  if request.referer.isNone && request.userAgent.isNone && request.acceptLanguage.isNone &&
      request.clientIp.isNone then event
  else
    event.withObject "request" fun object =>
      let object := object.insertIfAbsent "url" request.referer
      let object := object.withObject "headers" fun headers =>
        ((headers.insertIfAbsent "User-Agent" request.userAgent).insertIfAbsent "Referer"
          request.referer).insertIfAbsent "Accept-Language" request.acceptLanguage
      match request.clientIp with
      | some ip => object.withObject "env" (insertIfAbsent "REMOTE_ADDR" (some ip))
      | none => object

end Members

section

-- `parse_user_agent`
variable (parseUserAgent : String → ParsedUa)

/-- Merge request-derived metadata into an event payload; only objects have the event shape. -/
def enrich (request : RequestMeta) : Value → Value
  | .object event =>
    let event := match request.clientIp with
      | some ip => Members.setIpAddress ip event
      | none => event
    let event := match request.userAgent with
      | some ua => Members.setUaContexts (parseUserAgent ua) event
      | none => event
    .object (Members.setRequest request event)
  | payload => payload

/-- Enrichment leaves the members alone that it does not fill. -/
theorem enrich_get (request : RequestMeta) (payload : Value) {key : String} (hu : key ≠ "user")
    (hc : key ≠ "contexts") (hr : key ≠ "request") :
    (enrich parseUserAgent request payload).get key = payload.get key := by
  have hrequest (event : Members) : (event.setRequest request).get key = event.get key := by
    unfold Members.setRequest
    split
    · rfl
    · exact Members.get_withObject_ne hr _ _
  have hcontexts (parsed : ParsedUa) (event : Members) :
      (event.setUaContexts parsed).get key = event.get key := by
    unfold Members.setUaContexts
    split
    · rfl
    · exact Members.get_withObject_ne hc _ _
  have huser (ip : String) (event : Members) : (event.setIpAddress ip).get key = event.get key :=
    Members.get_withObject_ne hu _ _
  cases payload with
  | object event =>
    refine (hrequest _).trans ?_
    cases request.userAgent with
    | none => cases request.clientIp with
      | none => rfl
      | some ip => exact huser ip event
    | some ua =>
      refine (hcontexts _ _).trans ?_
      cases request.clientIp with
      | none => rfl
      | some ip => exact huser ip event
  | _ => rfl

end

end Soika
