import Mathlib.Data.List.Basic
import Soika.Domain.Json

/-! # Envelope parser

The newline-delimited stream of the Sentry envelope protocol, read with a cursor
as the source reads it: a header line, then item header lines, each followed by a
payload of its declared length or up to the next newline.
-/

namespace Soika

/-- An envelope item: its header and raw payload bytes. -/
structure EnvelopeItem where
  header : Value
  payload : List UInt8

structure Envelope where
  header : Value
  items : List EnvelopeItem

inductive EnvelopeError where
  | empty
  | headerJson
  | itemHeaderJson
  | truncatedItem
  | itemPayloadJson
  deriving DecidableEq

/-- `b'\n'`. -/
def newline : UInt8 := 10

/-- The bytes up to the next newline and the cursor past it; `none` at the end of input. -/
def nextLine (bytes : List UInt8) (cursor : ℕ) : Option (List UInt8 × ℕ) :=
  if bytes.length ≤ cursor then none
  else
    match (bytes.drop cursor).findIdx? (· = newline) with
    | some rel => some ((bytes.drop cursor).take rel, cursor + rel + 1)
    | none => some (bytes.drop cursor, bytes.length)

/-- A non-negative `length` of an item header (number form). -/
def declaredLength (itemHeader : Value) : Option ℕ := do
  let len ← (← itemHeader.get "length").asU64
  return len.toNat

/-- One item payload, by declared length or up to the next newline, and the cursor past it. -/
def readPayload (bytes : List UInt8) (cursor : ℕ) (itemHeader : Value) :
    Except EnvelopeError (List UInt8 × ℕ) :=
  match declaredLength itemHeader with
  | some len =>
    -- An overflowing `checked_add` and an end past the slice are the same error.
    if bytes.length < cursor + len then .error .truncatedItem
    else
      let «end» := cursor + len
      .ok ((bytes.drop cursor).take len,
        if bytes[«end»]? = some newline then «end» + 1 else «end»)
  | none => .ok ((nextLine bytes cursor).getD ([], cursor))

theorem nextLine_cursor {bytes line : List UInt8} {cursor next : ℕ}
    (h : nextLine bytes cursor = some (line, next)) : cursor < next ∧ cursor < bytes.length := by
  unfold nextLine at h
  split at h
  · cases h
  · rename_i hlt
    split at h <;> simp only [Option.some.injEq, Prod.mk.injEq] at h <;> omega

theorem readPayload_cursor {bytes payload : List UInt8} {cursor next : ℕ} {itemHeader : Value}
    (h : readPayload bytes cursor itemHeader = .ok (payload, next)) : cursor ≤ next := by
  unfold readPayload at h
  split at h
  · split at h
    · cases h
    · simp only [Except.ok.injEq, Prod.mk.injEq] at h
      split at h <;> omega
  · cases hl : nextLine bytes cursor with
    | none => simp_all
    | some r =>
      have hlt : cursor < r.2 := (nextLine_cursor hl).1
      simp_all
      omega

section Parse

-- `serde_json::from_slice`
variable (fromSlice : List UInt8 → Option Value)

/-- The loop over items; blank lines between them are skipped. -/
def parseItems (bytes : List UInt8) (cursor : ℕ) : Except EnvelopeError (List EnvelopeItem) :=
  match _hline : nextLine bytes cursor with
  | none => .ok []
  | some (itemHeaderLine, afterLine) =>
    if itemHeaderLine.isEmpty then parseItems bytes afterLine
    else
      match fromSlice itemHeaderLine with
      | none => .error .itemHeaderJson
      | some itemHeader =>
        match _hpayload : readPayload bytes afterLine itemHeader with
        | .error e => .error e
        | .ok (payload, afterPayload) => do
          let items ← parseItems bytes afterPayload
          return ⟨itemHeader, payload⟩ :: items
termination_by bytes.length - cursor
decreasing_by
  · have := nextLine_cursor _hline; omega
  · have := nextLine_cursor _hline; have := readPayload_cursor _hpayload; omega

theorem parseItems_end {bytes : List UInt8} {cursor : ℕ} (h : nextLine bytes cursor = none) :
    parseItems fromSlice bytes cursor = .ok [] := by
  rw [parseItems]
  split
  · rfl
  · simp_all

theorem parseItems_item {bytes line payload : List UInt8} {cursor c₁ c₂ : ℕ} {header : Value}
    (hl : nextLine bytes cursor = some (line, c₁)) (hne : line ≠ [])
    (hh : fromSlice line = some header) (hp : readPayload bytes c₁ header = .ok (payload, c₂)) :
    parseItems fromSlice bytes cursor =
      (parseItems fromSlice bytes c₂).map (⟨header, payload⟩ :: ·) := by
  rw [parseItems]
  split
  · simp_all
  · rename_i l c heq
    obtain ⟨rfl, rfl⟩ : l = line ∧ c = c₁ := by simp_all
    simp only [List.isEmpty_iff, hne, if_false, hh]
    split
    · simp_all
    · rename_i p c' heq'
      obtain ⟨rfl, rfl⟩ : p = payload ∧ c' = c₂ := by simp_all
      cases parseItems fromSlice bytes c' <;> rfl

/-- Parse a raw (already decompressed) envelope body. -/
def parse (bytes : List UInt8) : Except EnvelopeError Envelope :=
  match nextLine bytes 0 with
  | none => .error .empty
  | some (headerLine, cursor) =>
    if headerLine.isEmpty then .error .empty
    else
      match fromSlice headerLine with
      | none => .error .headerJson
      | some header => do
        let items ← parseItems fromSlice bytes cursor
        return ⟨header, items⟩

end Parse

namespace Envelope

/-- The envelope-level `event_id`, if the SDK set one in the header. -/
def headerEventId (env : Envelope) : Option String := (env.header.get "event_id").bind Value.asStr

end Envelope

namespace EnvelopeItem

/-- The item `type` field. -/
def itemType (item : EnvelopeItem) : Option String := (item.header.get "type").bind Value.asStr

/-- The payload of an `event` item. -/
def payloadJson (fromSlice : List UInt8 → Option Value) (item : EnvelopeItem) :
    Except EnvelopeError Value :=
  match fromSlice item.payload with
  | some v => .ok v
  | none => .error .itemPayloadJson

end EnvelopeItem

end Soika
