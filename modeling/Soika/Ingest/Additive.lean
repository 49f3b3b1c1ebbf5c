import Mathlib.Data.List.Nodup
import Mathlib.Data.String.Basic
import Soika.Domain.JsonPath
import Soika.Ingest.Enrich

/-! # What enrichment leaves of a payload

Enrichment edits some members of some objects. An edit depends on the member it finds and
leaves the others alone, so edits of different members commute, and whether a payload loses
a value is decided member by member.
-/

namespace Soika

/-- What happens to a member, if anything: a new value for it, from the one it has. -/
abbrev Edit := String × (Option Value → Option Value)

namespace Members

variable {key key' : String} {value value' : Value} {object : Members}

theorem get_insert_self (key : String) (value : Value) (object : Members) :
    (object.insert key value).get key = some value := by
  induction object with
  | nil => simp [insert, get_cons]
  | cons m rest ih =>
    rw [insert]
    split_ifs with heq hlt
    · simp [get_cons]
    · simp [get_cons]
    · rw [get_cons, if_neg heq, ih]

theorem insert_insert (key : String) (value value' : Value) (object : Members) :
    (object.insert key value).insert key value' = object.insert key value' := by
  induction object with
  | nil => simp [insert]
  | cons m rest ih =>
    simp only [insert]
    split_ifs with heq hlt
    · simp [insert]
    · simp [insert]
    · simp only [insert, heq, hlt, if_false, ih]

theorem insert_comm_of_lt (hlt : key < key') (value value' : Value) (object : Members) :
    (object.insert key value).insert key' value' = (object.insert key' value').insert key value := by
  have hne : key ≠ key' := hlt.ne
  have hnot : ¬ key' < key := hlt.asymm
  induction object with
  | nil => simp [insert, hne, hne.symm, hlt, hnot]
  | cons m rest ih =>
    obtain ⟨k, v⟩ := m
    rcases lt_trichotomy k key with hk | rfl | hk
    · have hk' : k < key' := hk.trans hlt
      simp [insert, hk.ne, hk.asymm, hk'.ne, hk'.asymm, ih]
    · simp [insert, hne, hnot]
    · rcases lt_trichotomy k key' with hk' | rfl | hk'
      · simp [insert, hk.ne', hk, hk'.ne, hk'.asymm, hne, hnot]
      · simp [insert, hk, hk.ne', hne, hnot]
      · simp [insert, hk.ne', hk, hk'.ne', hk', hne, hne.symm, hlt, hnot]

theorem insert_comm (hne : key ≠ key') (value value' : Value) (object : Members) :
    (object.insert key value).insert key' value' = (object.insert key' value').insert key value := by
  rcases lt_or_gt_of_ne hne with hlt | hgt
  · exact insert_comm_of_lt hlt value value' object
  · exact (insert_comm_of_lt hgt value' value object).symm

theorem containsKey_eq_isSome (object : Members) (key : String) :
    object.containsKey key = (object.get key).isSome := by
  induction object with
  | nil => rfl
  | cons m rest ih =>
    rw [get_cons]
    change (decide (m.1 = key) || containsKey rest key) = _
    by_cases h : m.1 = key <;> simp [h, ih]

def edit (e : Edit) (object : Members) : Members :=
  match e.2 (object.get e.1) with
  | some value => object.insert e.1 value
  | none => object

def edits (es : List Edit) (object : Members) : Members := es.foldl (fun o e => o.edit e) object

@[simp] theorem edits_nil (object : Members) : object.edits [] = object := rfl

@[simp] theorem edits_cons (e : Edit) (es : List Edit) (object : Members) :
    object.edits (e :: es) = (object.edit e).edits es := rfl

theorem get_edit_self (e : Edit) (object : Members) :
    (object.edit e).get e.1 = (e.2 (object.get e.1)).or (object.get e.1) := by
  unfold edit
  cases e.2 (object.get e.1) with
  | none => rfl
  | some value => exact get_insert_self ..

theorem get_edit_ne (e : Edit) (h : key ≠ e.1) (object : Members) :
    (object.edit e).get key = object.get key := by
  unfold edit
  cases e.2 (object.get e.1) with
  | none => rfl
  | some value => exact get_insert_ne h value object

theorem edit_comm {e e' : Edit} (h : e.1 ≠ e'.1) (object : Members) :
    (object.edit e).edit e' = (object.edit e').edit e := by
  have hget := get_edit_ne e h.symm object
  have hget' := get_edit_ne e' h object
  unfold edit at *
  rw [hget, hget']
  cases e.2 (object.get e.1) with
  | none => rfl
  | some value =>
    cases e'.2 (object.get e'.1) with
    | none => rfl
    | some value' => exact insert_comm h value value' object

/-- The edit changes nothing any more once it has been made. -/
def Settled (e : Edit) : Prop :=
  ∀ before value, e.2 before = some value → e.2 (some value) = none ∨ e.2 (some value) = some value

theorem edit_edit {e : Edit} (h : Settled e) (object : Members) :
    (object.edit e).edit e = object.edit e := by
  cases hfirst : e.2 (object.get e.1) with
  | none =>
    have hsame : object.edit e = object := by rw [edit, hfirst]
    rw [hsame, hsame]
  | some value =>
    have hedit : object.edit e = object.insert e.1 value := by rw [edit, hfirst]
    have hget : (object.edit e).get e.1 = some value := by rw [hedit, get_insert_self]
    rcases h _ _ hfirst with hnone | hsome
    · rw [edit, hget, hnone]
    · rw [edit, hget, hsome, hedit]
      exact insert_insert ..

theorem get_edits_ne {es : List Edit} (h : ∀ e ∈ es, key ≠ e.1) (object : Members) :
    (object.edits es).get key = object.get key := by
  induction es generalizing object with
  | nil => rfl
  | cons e es ih =>
    obtain ⟨he, hes⟩ := List.forall_mem_cons.mp h
    exact (ih hes (object.edit e)).trans (get_edit_ne e he object)

/-- Edits of different members: each finds the member as it was. -/
theorem get_edits {es : List Edit} (hkeys : (es.map Prod.fst).Nodup) {e : Edit} (he : e ∈ es)
    (object : Members) :
    (object.edits es).get e.1 = (e.2 (object.get e.1)).or (object.get e.1) := by
  induction es generalizing object with
  | nil => cases he
  | cons e' es ih =>
    obtain ⟨hnew, hkeys⟩ := List.nodup_cons.mp hkeys
    rw [edits_cons]
    rcases List.mem_cons.mp he with rfl | he
    · rw [get_edits_ne (fun f hf heq => hnew (List.mem_map.mpr ⟨f, hf, heq.symm⟩)), get_edit_self]
    · have hne : e.1 ≠ e'.1 := fun heq => hnew (List.mem_map.mpr ⟨e, he, heq⟩)
      rw [ih hkeys he, get_edit_ne e' hne]

theorem edit_edits_comm {e : Edit} {es : List Edit} (h : e.1 ∉ es.map Prod.fst) (object : Members) :
    (object.edits es).edit e = (object.edit e).edits es := by
  induction es generalizing object with
  | nil => rfl
  | cons e' es ih =>
    rw [List.map_cons, List.mem_cons, not_or] at h
    rw [edits_cons, edits_cons, ih h.2, edit_comm h.1]

theorem edits_edits {es : List Edit} (hkeys : (es.map Prod.fst).Nodup) (h : ∀ e ∈ es, Settled e)
    (object : Members) : (object.edits es).edits es = object.edits es := by
  induction es generalizing object with
  | nil => rfl
  | cons e es ih =>
    obtain ⟨hnew, hkeys⟩ := List.nodup_cons.mp hkeys
    obtain ⟨he, hes⟩ := List.forall_mem_cons.mp h
    rw [edits_cons, edits_cons, edit_edits_comm hnew, edit_edit he]
    exact ih hkeys hes _

/-- Fill in a member that is absent. -/
def fill (value : Option Value) : Option Value → Option Value
  | none => value
  | some _ => none

/-- The object that `ensure_object` finds or makes of a member. -/
def ensured : Option Value → Members
  | some (.object object) => object
  | _ => []

def within (es : List Edit) (before : Option Value) : Option Value :=
  some (.object (edits es (ensured before)))

theorem withObject_eq_edit (key : String) (es : List Edit) (parent : Members) :
    parent.withObject key (edits es) = parent.edit (key, within es) := by
  unfold withObject edit within ensured
  cases parent.get key with
  | none => rfl
  | some value => cases value <;> rfl

theorem insertIfAbsent_eq_edit (key : String) (value : Option String) (object : Members) :
    object.insertIfAbsent key value = object.edit (key, fill (value.map .string)) := by
  unfold insertIfAbsent edit
  rw [containsKey_eq_isSome]
  cases value with
  | none => cases object.get key <;> rfl
  | some text => cases object.get key <;> rfl

/-- The entry that `set_named_context` inserts. -/
def namedContext (key : String) (product : Product) : Value :=
  let entry := (insert "type" (.string key) []).insert "name" (.string product.1)
  .object (match product.2 with
    | some version => entry.insert "version" (.string version)
    | none => entry)

theorem setNamedContext_eq_edit (key : String) (product : Product) (contexts : Members) :
    contexts.setNamedContext key product =
      contexts.edit (key, fill (some (namedContext key product))) := by
  unfold setNamedContext edit
  rw [containsKey_eq_isSome]
  cases contexts.get key <;> rfl

/-- An address that is kept: a string that is neither blank nor the sentinel. -/
def KeptAddress (value : Value) : Prop :=
  ∃ existing, value = .string existing ∧ existing ≠ autoIp ∧ trim existing ≠ ""

instance (value : Value) : Decidable (KeptAddress value) :=
  match value with
  | .string existing => decidable_of_iff (existing ≠ autoIp ∧ trim existing ≠ "")
      ⟨fun h => ⟨existing, rfl, h⟩, fun ⟨_, heq, h⟩ => by cases heq; exact h⟩
  | .null => .isFalse nofun
  | .bool _ => .isFalse nofun
  | .number _ => .isFalse nofun
  | .array _ => .isFalse nofun
  | .object _ => .isFalse nofun

def address (ip : String) : Option Value → Option Value
  | some value => if KeptAddress value then none else some (.string ip)
  | none => some (.string ip)

theorem setIpAddress_eq_edit (ip : String) (event : Members) :
    event.setIpAddress ip = event.edit ("user", within [("ip_address", address ip)]) := by
  rw [← withObject_eq_edit, setIpAddress]
  congr 1
  funext user
  change _ = user.edit ("ip_address", address ip)
  unfold edit address
  dsimp only
  cases user.get "ip_address" with
  | none => rfl
  | some value =>
    cases value with
    | string existing =>
      have hiff : KeptAddress (.string existing) ↔ existing ≠ autoIp ∧ trim existing ≠ "" :=
        ⟨fun ⟨_, heq, h⟩ => by cases heq; exact h, fun h => ⟨existing, rfl, h⟩⟩
      simp only [Option.bind_some, Value.asStr, hiff]
      split_ifs <;> rfl
    | null => rfl
    | bool b => rfl
    | number n => rfl
    | array elems => rfl
    | object members => rfl

end Members

section

open Members

variable (parseUserAgent : String → ParsedUa) (request : RequestMeta)

/-- The edits of `user`, `contexts` and `request` that a request calls for. -/
def addressEdits : Option String → List Edit
  | some ip => [("user", within [("ip_address", address ip)])]
  | none => []

def contextEdits : Option String → List Edit
  | some ua =>
    let parsed := parseUserAgent ua
    if parsed.browser.isNone && parsed.os.isNone then []
    else [("contexts", within
      [("browser", fill (parsed.browser.map (namedContext "browser"))),
        ("os", fill (parsed.os.map (namedContext "os")))])]
  | none => []

def headerEdits : List Edit :=
  [("User-Agent", fill (request.userAgent.map .string)),
    ("Referer", fill (request.referer.map .string)),
    ("Accept-Language", fill (request.acceptLanguage.map .string))]

/-- `env` is made only for an address. -/
def envEdits : Option String → List Edit
  | some ip => [("env", within [("REMOTE_ADDR", fill (some (.string ip)))])]
  | none => []

/-- There is nothing to add to the `request` interface. -/
def RequestMeta.isEmpty : Bool :=
  request.referer.isNone && request.userAgent.isNone && request.acceptLanguage.isNone &&
    request.clientIp.isNone

def requestEdits : List Edit :=
  if request.isEmpty then []
  else [("request", within
    (("url", fill (request.referer.map .string)) :: ("headers", within (headerEdits request)) ::
      envEdits request.clientIp))]

def enrichEdits : List Edit :=
  addressEdits request.clientIp ++ (contextEdits parseUserAgent request.userAgent ++
    requestEdits request)

variable {parseUserAgent request}

theorem edit_namedContext (key : String) (product : Option Product) (contexts : Members) :
    contexts.edit (key, fill (product.map (namedContext key))) =
      product.elim contexts fun product => contexts.setNamedContext key product := by
  cases product with
  | none =>
    unfold edit
    cases contexts.get key <;> rfl
  | some product => exact (setNamedContext_eq_edit key product contexts).symm

theorem setUaContexts_eq_edits (ua : String) (event : Members) :
    event.setUaContexts (parseUserAgent ua) = event.edits (contextEdits parseUserAgent (some ua)) := by
  unfold setUaContexts contextEdits
  dsimp only
  split_ifs
  · rfl
  · rw [edits_cons, edits_nil, ← withObject_eq_edit]
    congr 1
    funext contexts
    rw [edits_cons, edits_cons, edits_nil]
    rw [edit_namedContext, edit_namedContext]
    cases (parseUserAgent ua).browser <;> cases (parseUserAgent ua).os <;> rfl

theorem setRequest_eq_edits (event : Members) :
    event.setRequest request = event.edits (requestEdits request) := by
  unfold setRequest requestEdits RequestMeta.isEmpty
  split_ifs
  · rfl
  · rw [edits_cons, edits_nil, ← withObject_eq_edit]
    congr 1
    funext object
    have hheaders : (fun headers : Members =>
        ((headers.insertIfAbsent "User-Agent" request.userAgent).insertIfAbsent "Referer"
          request.referer).insertIfAbsent "Accept-Language" request.acceptLanguage) =
        edits (headerEdits request) := by
      funext headers
      simp only [insertIfAbsent_eq_edit]
      rfl
    dsimp only
    rw [hheaders, withObject_eq_edit, insertIfAbsent_eq_edit]
    cases request.clientIp with
    | none => rfl
    | some ip =>
      have henv : insertIfAbsent "REMOTE_ADDR" (some ip) =
          edits [("REMOTE_ADDR", fill (some (.string ip)))] :=
        funext fun env => insertIfAbsent_eq_edit ..
      change withObject "env" (insertIfAbsent "REMOTE_ADDR" (some ip)) _ = _
      rw [henv, withObject_eq_edit]
      rfl

theorem enrich_object (event : Members) : enrich parseUserAgent request (.object event) =
    .object (event.edits (enrichEdits parseUserAgent request)) := by
  have hsplit : event.edits (enrichEdits parseUserAgent request) =
      ((event.edits (addressEdits request.clientIp)).edits
        (contextEdits parseUserAgent request.userAgent)).edits (requestEdits request) := by
    simp only [enrichEdits, edits, List.foldl_append]
  rw [hsplit, enrich, setRequest_eq_edits]
  congr 2
  cases request.userAgent with
  | none =>
    cases request.clientIp with
    | none => rfl
    | some ip => exact setIpAddress_eq_edit ip event
  | some ua =>
    refine (setUaContexts_eq_edits ua _).trans ?_
    cases request.clientIp with
    | none => rfl
    | some ip => exact congrArg (edits _) (setIpAddress_eq_edit ip event)

end

namespace Members

theorem settled_fill (key : String) (value : Option Value) : Settled (key, fill value) := by
  intro before v hv
  cases before with
  | none => exact .inl rfl
  | some u => cases hv

theorem settled_address (key ip : String) : Settled (key, address ip) := by
  intro before v hv
  have hip : v = .string ip := by
    change address ip before = some v at hv
    unfold address at hv
    split at hv
    · split at hv
      · cases hv
      · exact (Option.some.inj hv).symm
    · exact (Option.some.inj hv).symm
  subst hip
  by_cases hkept : KeptAddress (.string ip)
  · exact .inl (if_pos hkept)
  · exact .inr (if_neg hkept)

theorem settled_within (key : String) {es : List Edit} (hkeys : (es.map Prod.fst).Nodup)
    (h : ∀ e ∈ es, Settled e) : Settled (key, within es) := by
  intro before v hv
  obtain rfl := Option.some.inj hv
  exact .inr (congrArg (fun o => some (Value.object o)) (edits_edits hkeys h _))

end Members

section

open Members

variable {parseUserAgent : String → ParsedUa} {request : RequestMeta}

theorem addressEdits_keys (ip : String) :
    ([("ip_address", address ip)].map Prod.fst).Nodup := List.nodup_singleton _

theorem contextEdits_keys (browser os : Option Value → Option Value) :
    ([("browser", browser), ("os", os)].map Prod.fst).Nodup :=
  (by decide : ["browser", "os"].Nodup)

theorem headerEdits_keys (request : RequestMeta) : ((headerEdits request).map Prod.fst).Nodup :=
  (by decide : ["User-Agent", "Referer", "Accept-Language"].Nodup)

theorem requestEdits_keys (url headers : Option Value → Option Value) (ip : Option String) :
    ((("url", url) :: ("headers", headers) :: envEdits ip).map Prod.fst).Nodup := by
  cases ip with
  | none => exact (by decide : ["url", "headers"].Nodup)
  | some ip => exact (by decide : ["url", "headers", "env"].Nodup)

theorem enrichEdits_keys : ((enrichEdits parseUserAgent request).map Prod.fst).Nodup := by
  have hcontext (ua : Option String) : (contextEdits parseUserAgent ua).map Prod.fst = [] ∨
      (contextEdits parseUserAgent ua).map Prod.fst = ["contexts"] := by
    unfold contextEdits
    split
    · dsimp only
      split
      · exact .inl rfl
      · exact .inr rfl
    · exact .inl rfl
  have hrequest : (requestEdits request).map Prod.fst = [] ∨
      (requestEdits request).map Prod.fst = ["request"] := by
    unfold requestEdits
    split
    · exact .inl rfl
    · exact .inr rfl
  have haddress : (addressEdits request.clientIp).map Prod.fst = [] ∨
      (addressEdits request.clientIp).map Prod.fst = ["user"] := by
    cases request.clientIp
    · exact .inl rfl
    · exact .inr rfl
  rw [enrichEdits, List.map_append, List.map_append]
  rcases haddress with h | h <;> rcases hcontext request.userAgent with h' | h' <;>
    rcases hrequest with h'' | h'' <;> rw [h, h', h''] <;> decide

theorem settled_enrichEdits : ∀ e ∈ enrichEdits parseUserAgent request, Settled e := by
  intro e he
  simp only [enrichEdits, List.mem_append] at he
  rcases he with he | he | he
  · unfold addressEdits at he
    split at he
    · obtain rfl := List.mem_singleton.mp he
      exact settled_within _ (addressEdits_keys _) (List.forall_mem_singleton.mpr (settled_address _ _))
    · cases he
  · unfold contextEdits at he
    split at he
    · dsimp only at he
      split at he
      · cases he
      · obtain rfl := List.mem_singleton.mp he
        refine settled_within _ (contextEdits_keys _ _) ?_
        exact List.forall_mem_cons.mpr ⟨settled_fill _ _, List.forall_mem_singleton.mpr (settled_fill _ _)⟩
    · cases he
  · unfold requestEdits at he
    split at he
    · cases he
    · obtain rfl := List.mem_singleton.mp he
      have hheaders : ∀ e ∈ headerEdits request, Settled e := by
        intro e he
        simp only [headerEdits, List.mem_cons, List.not_mem_nil, or_false] at he
        rcases he with rfl | rfl | rfl <;> exact settled_fill _ _
      refine settled_within _ (requestEdits_keys _ _ _) fun e he => ?_
      rcases List.mem_cons.mp he with rfl | he
      · exact settled_fill _ _
      · rcases List.mem_cons.mp he with rfl | he
        · exact settled_within _ (headerEdits_keys _) hheaders
        · unfold envEdits at he
          split at he
          · obtain rfl := List.mem_singleton.mp he
            exact settled_within _ (List.nodup_singleton _)
              (List.forall_mem_singleton.mpr (settled_fill _ _))
          · cases he

theorem enrich_enrich (payload : Value) : enrich parseUserAgent request
    (enrich parseUserAgent request payload) = enrich parseUserAgent request payload := by
  cases payload with
  | object event =>
    rw [enrich_object, enrich_object]
    exact congrArg Value.object (edits_edits enrichEdits_keys settled_enrichEdits event)
  | _ => rfl

end

/-- A value that is still the same; an object may have got more members. -/
def Same (v w : Value) : Prop := w = v ∨ v.isObject = true ∧ w.isObject = true

/-- Every value at and below `v` that is not excepted is still at its path. -/
def Extends (excepted : List Segment → Value → Prop) (v : Value) (w : Option Value) : Prop :=
  ∀ path u, v.atPath path = some u → ¬ excepted path u →
    ∃ u', (w.bind fun w => w.atPath path) = some u' ∧ Same u u'

/-- A `user.ip_address` that is a blank string, null or the sentinel. -/
def UnsetAddress (path : List Segment) (v : Value) : Prop :=
  path = [.key "user", .key "ip_address"] ∧
    (v = .null ∨ ∃ text, v = .string text ∧ (trim text = "" ∨ text = autoIp))

section

open Members

variable {excepted : List Segment → Value → Prop}

theorem extends_refl (v : Value) : Extends excepted v (some v) :=
  fun _ u hu _ => ⟨u, hu, .inl rfl⟩

theorem extends_object {object object' : Members} :
    Extends excepted (.object object) (some (.object object')) ↔
      ∀ key u, object.get key = some u →
        Extends (fun path => excepted (.key key :: path)) u (object'.get key) := by
  constructor
  · intro h key u hu path x hx hex
    refine h (.key key :: path) x ?_ hex
    rw [Value.atPath_key]
    exact (congrArg (Option.bind · _) hu).trans hx
  · intro h path u hu hex
    cases path with
    | nil =>
      obtain rfl := Option.some.inj hu
      exact ⟨_, rfl, .inr ⟨rfl, rfl⟩⟩
    | cons segment path =>
      cases segment with
      | key key =>
        obtain ⟨x, hx, hu⟩ := Option.bind_eq_some_iff.mp hu
        exact h key x hx path u hu hex
      | index i => cases hu

theorem extends_edits {es : List Edit} (hkeys : (es.map Prod.fst).Nodup) {object : Members} :
    Extends excepted (.object object) (some (.object (object.edits es))) ↔
      ∀ e ∈ es, ∀ u, object.get e.1 = some u →
        Extends (fun path => excepted (.key e.1 :: path)) u ((e.2 (some u)).or (some u)) := by
  rw [extends_object]
  constructor
  · intro h e he u hu
    have hmember := h e.1 u hu
    rwa [get_edits hkeys he, hu] at hmember
  · intro h key u hu
    by_cases hkey : ∃ e ∈ es, e.1 = key
    · obtain ⟨e, he, rfl⟩ := hkey
      rw [get_edits hkeys he, hu]
      exact h e he u hu
    · push Not at hkey
      rw [get_edits_ne (fun e he heq => hkey e he heq.symm), hu]
      exact extends_refl u

theorem extends_fill (value : Option Value) (u : Value) :
    Extends excepted u ((fill value (some u)).or (some u)) :=
  extends_refl u

/-- Only an object can be edited within; any other value is lost. -/
theorem extends_within {es : List Edit} {u : Value} (hex : ¬ excepted [] u) :
    Extends excepted u ((within es (some u)).or (some u)) ↔
      ∃ object : Members, u = .object object ∧
        Extends excepted u (some (.object (object.edits es))) := by
  constructor
  · intro h
    obtain ⟨u', hu', hsame⟩ := h [] u rfl hex
    cases u with
    | object object => exact ⟨object, rfl, h⟩
    | _ =>
      obtain rfl := Option.some.inj hu'
      rcases hsame with heq | ⟨hobject, -⟩
      · cases heq
      · cases hobject
  · rintro ⟨object, rfl, h⟩
    exact h

theorem extends_address (ip : String) (u : Value) :
    Extends (fun path => UnsetAddress (.key "user" :: .key "ip_address" :: path)) u
      ((address ip (some u)).or (some u)) ↔ u = .null ∨ u.asStr.isSome = true := by
  have hlost (hkept : ¬ KeptAddress u) : (address ip (some u)).or (some u) = some (.string ip) := by
    rw [address, if_neg hkept]
    rfl
  have hleaf (hobject : u.isObject = false) (harray : u.asArray = none)
      (hunset : u = .null ∨ ∃ text, u = .string text ∧ (trim text = "" ∨ text = autoIp)) (w : Option Value) :
      Extends (fun path => UnsetAddress (.key "user" :: .key "ip_address" :: path)) u w := by
    intro path x hx hex
    cases path with
    | nil =>
      obtain rfl := Option.some.inj hx
      exact absurd ⟨rfl, hunset⟩ hex
    | cons segment path =>
      rw [Value.atPath_cons_eq_none hobject harray] at hx
      cases hx
  constructor
  · intro h
    by_contra hother
    have hkept : ¬ KeptAddress u := by
      rintro ⟨text, rfl, -⟩
      exact hother (.inr rfl)
    rw [hlost hkept] at h
    have hset : ¬ UnsetAddress [.key "user", .key "ip_address"] u := by
      rintro ⟨-, rfl | ⟨text, rfl, -⟩⟩
      · exact hother (.inl rfl)
      · exact hother (.inr rfl)
    obtain ⟨u', hu', hsame⟩ := h [] u rfl hset
    obtain rfl := Option.some.inj hu'
    rcases hsame with rfl | ⟨-, hobject⟩
    · exact hother (.inr rfl)
    · cases hobject
  · rintro (rfl | hstr)
    · exact hleaf rfl rfl (.inl rfl) _
    · cases u with
      | string text =>
        by_cases hkept : KeptAddress (.string text)
        · rw [address, if_pos hkept]
          exact extends_refl _
        · refine hleaf rfl rfl (.inr ⟨text, rfl, ?_⟩) _
          by_contra hset
          rw [not_or] at hset
          exact hkept ⟨text, rfl, hset.2, hset.1⟩
      | _ => cases hstr

end

namespace Members

def ObjectOrAbsent (object : Members) (key : String) (P : Members → Prop) : Prop :=
  ∀ u, object.get key = some u → ∃ members, u = .object members ∧ P members

end Members

/--
The members of a payload that its enrichment goes into are absent or objects: `user` for an address,
`contexts` for a known browser or system, `request` with its `headers` for anything, and its `env`
for an address. An address that the payload has is a string or null.
-/
structure Fits (parseUserAgent : String → ParsedUa) (request : RequestMeta) (event : Members) :
    Prop where
  user : request.clientIp.isSome = true → event.ObjectOrAbsent "user" fun user =>
    ∀ u, user.get "ip_address" = some u → u = .null ∨ u.asStr.isSome = true
  contexts : ∀ ua, request.userAgent = some ua →
    ((parseUserAgent ua).browser.isSome = true ∨ (parseUserAgent ua).os.isSome = true) →
      event.ObjectOrAbsent "contexts" fun _ => True
  request : request.isEmpty = false → event.ObjectOrAbsent "request" fun object =>
    (object.ObjectOrAbsent "headers" fun _ => True) ∧
      (request.clientIp.isSome = true → object.ObjectOrAbsent "env" fun _ => True)

section

open Members

variable {parseUserAgent : String → ParsedUa} {request : RequestMeta}
  {excepted : List Segment → Value → Prop} {event object : Members}

/-- Where members are only filled in, an object loses nothing. -/
theorem extends_fills {es : List Edit} (hkeys : (es.map Prod.fst).Nodup)
    (hfill : ∀ e ∈ es, ∃ value, e.2 = fill value) :
    Extends excepted (.object object) (some (.object (object.edits es))) := by
  refine (extends_edits hkeys).mpr fun e he u _ => ?_
  obtain ⟨value, hvalue⟩ := hfill e he
  rw [hvalue]
  exact extends_fill value u

theorem extends_within_fills {es : List Edit} (hkeys : (es.map Prod.fst).Nodup)
    (hfill : ∀ e ∈ es, ∃ value, e.2 = fill value) {key : String} (hex : ∀ path u, ¬ excepted path u) :
    (∀ u, object.get key = some u → Extends excepted u ((within es (some u)).or (some u))) ↔
      object.ObjectOrAbsent key fun _ => True := by
  refine forall₂_congr fun u _ => ?_
  rw [extends_within (hex [] u)]
  refine exists_congr fun members => and_congr_right fun hu => ?_
  subst hu
  exact iff_of_true (extends_fills hkeys hfill) trivial

theorem not_unset_of_ne {key : String} (hne : key ≠ "user") (path : List Segment) (u : Value) :
    ¬ UnsetAddress (.key key :: path) u := by
  rintro ⟨hpath, -⟩
  exact hne (Segment.key.inj (List.cons.inj hpath).1)

theorem extends_user (ip : String) :
    (∀ u, event.get "user" = some u → Extends (fun path => UnsetAddress (.key "user" :: path)) u
      ((within [("ip_address", address ip)] (some u)).or (some u))) ↔
      event.ObjectOrAbsent "user" fun user =>
        ∀ u, user.get "ip_address" = some u → u = .null ∨ u.asStr.isSome = true := by
  refine forall₂_congr fun u _ => ?_
  rw [extends_within fun h => by cases h.1]
  refine exists_congr fun user => and_congr_right fun hu => ?_
  subst hu
  rw [extends_edits (addressEdits_keys ip), List.forall_mem_singleton]
  exact forall₂_congr fun u _ => extends_address ip u

theorem extends_request : (∀ u, event.get "request" = some u →
      Extends (fun path => UnsetAddress (.key "request" :: path)) u
        ((within (("url", fill (request.referer.map .string)) ::
          ("headers", within (headerEdits request)) :: envEdits request.clientIp)
            (some u)).or (some u))) ↔
      event.ObjectOrAbsent "request" fun object =>
        (object.ObjectOrAbsent "headers" fun _ => True) ∧
          (request.clientIp.isSome = true → object.ObjectOrAbsent "env" fun _ => True) := by
  have hex (key : String) (path : List Segment) (u : Value) :
      ¬ UnsetAddress (.key "request" :: .key key :: path) u := not_unset_of_ne (by decide) _ u
  have hheaders : ∀ e ∈ headerEdits request, ∃ value, e.2 = fill value := by
    intro e he
    simp only [headerEdits, List.mem_cons, List.not_mem_nil, or_false] at he
    rcases he with rfl | rfl | rfl <;> exact ⟨_, rfl⟩
  refine forall₂_congr fun u _ => ?_
  rw [extends_within (not_unset_of_ne (by decide) _ u)]
  refine exists_congr fun object => and_congr_right fun hu => ?_
  subst hu
  rw [extends_edits (requestEdits_keys ..), List.forall_mem_cons, List.forall_mem_cons,
    extends_within_fills (headerEdits_keys request) hheaders (hex "headers")]
  rw [and_iff_right fun u _ => extends_fill _ u]
  refine and_congr_right fun _ => ?_
  cases request.clientIp with
  | none => simp [envEdits]
  | some ip =>
    have henv : ∀ e ∈ [("REMOTE_ADDR", fill (some (.string ip)))], ∃ value, e.2 = fill value :=
      List.forall_mem_singleton.mpr ⟨_, rfl⟩
    have hkeys : ([("REMOTE_ADDR", fill (some (.string ip)))].map Prod.fst).Nodup :=
      List.nodup_singleton _
    rw [envEdits, List.forall_mem_singleton, extends_within_fills hkeys henv (hex "env")]
    simp

theorem extends_contexts (ua : String) :
    (∀ e ∈ contextEdits parseUserAgent (some ua), ∀ u, event.get e.1 = some u →
      Extends (fun path => UnsetAddress (.key e.1 :: path)) u ((e.2 (some u)).or (some u))) ↔
      (((parseUserAgent ua).browser.isSome = true ∨ (parseUserAgent ua).os.isSome = true) →
        event.ObjectOrAbsent "contexts" fun _ => True) := by
  unfold contextEdits
  dsimp only
  split
  · rename_i hnone
    refine iff_of_true nofun fun hsome => ?_
    simp only [Bool.and_eq_true, Option.isNone_iff_eq_none] at hnone
    simp [hnone] at hsome
  · rename_i hsome
    have hsome : (parseUserAgent ua).browser.isSome = true ∨ (parseUserAgent ua).os.isSome = true := by
      cases hb : (parseUserAgent ua).browser <;> cases ho : (parseUserAgent ua).os <;>
        simp [hb, ho] at hsome ⊢
    have hfill : ∀ e ∈ [("browser", fill ((parseUserAgent ua).browser.map (namedContext "browser"))),
        ("os", fill ((parseUserAgent ua).os.map (namedContext "os")))], ∃ value, e.2 = fill value := by
      intro e he
      simp only [List.mem_cons, List.not_mem_nil, or_false] at he
      rcases he with rfl | rfl <;> exact ⟨_, rfl⟩
    have hex : ∀ path u, ¬ UnsetAddress (.key "contexts" :: path) u := not_unset_of_ne (by decide)
    rw [List.forall_mem_singleton, extends_within_fills (contextEdits_keys _ _) hfill hex]
    exact ⟨fun h _ => h, fun h => h hsome⟩

/--
Enrichment of an object leaves every value at its path, apart from an address that is unset, and is
done once and for all, iff the members that it goes into are absent or objects.
-/
theorem enrich_additive_iff (parseUserAgent : String → ParsedUa) (request : RequestMeta)
    (event : Members) :
    (Extends UnsetAddress (.object event) (some (enrich parseUserAgent request (.object event))) ∧
      enrich parseUserAgent request (enrich parseUserAgent request (.object event)) =
        enrich parseUserAgent request (.object event)) ↔
      Fits parseUserAgent request event := by
  rw [and_iff_left (enrich_enrich _), enrich_object, extends_edits enrichEdits_keys, enrichEdits,
    List.forall_mem_append, List.forall_mem_append]
  have haddress : (∀ e ∈ addressEdits request.clientIp, ∀ u, event.get e.1 = some u →
      Extends (fun path => UnsetAddress (.key e.1 :: path)) u ((e.2 (some u)).or (some u))) ↔
      (request.clientIp.isSome = true → event.ObjectOrAbsent "user" fun user =>
        ∀ u, user.get "ip_address" = some u → u = .null ∨ u.asStr.isSome = true) := by
    cases request.clientIp with
    | none => simp [addressEdits]
    | some ip =>
      rw [addressEdits, List.forall_mem_singleton, extends_user]
      simp
  have hcontexts : (∀ e ∈ contextEdits parseUserAgent request.userAgent, ∀ u,
      event.get e.1 = some u →
      Extends (fun path => UnsetAddress (.key e.1 :: path)) u ((e.2 (some u)).or (some u))) ↔
      ∀ ua, request.userAgent = some ua →
        ((parseUserAgent ua).browser.isSome = true ∨ (parseUserAgent ua).os.isSome = true) →
          event.ObjectOrAbsent "contexts" fun _ => True := by
    cases request.userAgent with
    | none => simp [contextEdits]
    | some ua =>
      rw [extends_contexts]
      simp
  have hrequest : (∀ e ∈ requestEdits request, ∀ u, event.get e.1 = some u →
      Extends (fun path => UnsetAddress (.key e.1 :: path)) u ((e.2 (some u)).or (some u))) ↔
      (request.isEmpty = false → event.ObjectOrAbsent "request" fun object =>
        (object.ObjectOrAbsent "headers" fun _ => True) ∧
          (request.clientIp.isSome = true → object.ObjectOrAbsent "env" fun _ => True)) := by
    unfold requestEdits
    cases request.isEmpty with
    | true => simp
    | false =>
      rw [if_neg Bool.false_ne_true, List.forall_mem_singleton, extends_request]
      simp
  rw [haddress, hcontexts, hrequest]
  exact ⟨fun ⟨hu, hc, hr⟩ => ⟨hu, hc, hr⟩, fun h => ⟨h.user, h.contexts, h.request⟩⟩

end

def pairHeaders : Members :=
  [("request", .object [("headers", .array [.array [.string "Accept", .string "*/*"]])])]

/-- They are lost when a `Referer` is filled in. -/
theorem pairHeaders_lost : ¬ Extends UnsetAddress (.object pairHeaders)
    (some (enrich (fun _ => ⟨none, none⟩) ⟨none, none, some "https://example.com/", none⟩
      (.object pairHeaders))) := by
  intro h
  obtain ⟨u, hu, hsame⟩ := h [.key "request", .key "headers"] _ rfl
    (not_unset_of_ne (by decide) _ _)
  obtain rfl := Option.some.inj hu
  rcases hsame with heq | ⟨hobject, -⟩
  · cases heq
  · cases hobject

end Soika
