import Soika.Ingest.Envelope

/-! # The envelope format

What a client writes: a header line, then one newline before each item header
line, and the payload of the item after it, framed by its declared length or by
the end of its line. Parsing reads back what was written, with or without a final
newline.
-/

namespace Soika

theorem findIdx?_newline {line : List UInt8} (h : newline ∉ line) :
    line.findIdx? (· = newline) = none := by
  rw [List.findIdx?_eq_none_iff]
  intro b hb
  rw [decide_eq_false_iff_not]
  rintro rfl
  exact h hb

theorem nextLine_line {bytes line : List UInt8} {cursor : ℕ} (pre rest : List UInt8)
    (hb : bytes = pre ++ (line ++ newline :: rest)) (hc : cursor = pre.length)
    (h : newline ∉ line) : nextLine bytes cursor = some (line, cursor + line.length + 1) := by
  subst hb hc
  have hidx : (line ++ newline :: rest).findIdx? (· = newline) = some line.length := by
    rw [List.findIdx?_append, findIdx?_newline h]
    simp [List.findIdx?_cons]
  have hlt : ¬ (pre ++ (line ++ newline :: rest)).length ≤ pre.length := by
    simp only [List.length_append, List.length_cons]; omega
  simp only [nextLine, hlt, if_false, List.drop_left, hidx, List.take_left]

theorem nextLine_last {bytes line : List UInt8} {cursor : ℕ} (pre : List UInt8)
    (hb : bytes = pre ++ line) (hc : cursor = pre.length) (h : newline ∉ line) (hne : line ≠ []) :
    nextLine bytes cursor = some (line, cursor + line.length) := by
  subst hb hc
  have hlt : ¬ (pre ++ line).length ≤ pre.length := by
    have := List.length_pos_iff.mpr hne
    simp only [List.length_append]; omega
  rw [nextLine, if_neg hlt, List.drop_left, findIdx?_newline h, List.length_append]

theorem nextLine_end {bytes : List UInt8} {cursor : ℕ} (hc : cursor = bytes.length) :
    nextLine bytes cursor = none := by
  simp [nextLine, hc]

/-- The separator after a payload: one newline before a next item, an optional one at the end. -/
def IsTail (tail : List UInt8) : Prop := tail = [] ∨ ∃ rest, tail = newline :: rest

/-- How a payload is framed: by the declared length, or by the end of its line. -/
def Framed (itemHeader : Value) (payload : List UInt8) : Prop :=
  declaredLength itemHeader = some payload.length ∨
    declaredLength itemHeader = none ∧ newline ∉ payload

theorem readPayload_framed {bytes payload tail : List UInt8} {cursor : ℕ} {itemHeader : Value}
    (pre : List UInt8) (hb : bytes = pre ++ (payload ++ tail)) (hc : cursor = pre.length)
    (h : Framed itemHeader payload) (ht : IsTail tail) :
    readPayload bytes cursor itemHeader =
      .ok (payload, cursor + payload.length + if tail = [] then 0 else 1) := by
  rcases h with hlen | ⟨hlen, hline⟩
  · subst hb hc
    rcases ht with rfl | ⟨rest, rfl⟩ <;> simp [readPayload, hlen]
  · rcases ht with rfl | ⟨rest, rfl⟩
    · rw [List.append_nil] at hb
      by_cases hp : payload = []
      · subst hp
        have he : nextLine bytes cursor = none := nextLine_end (by simp [hb, hc])
        simp [readPayload, hlen, he]
      · simp [readPayload, hlen, nextLine_last pre hb hc hline hp]
    · simp [readPayload, hlen, nextLine_line pre rest hb hc hline]

section Wire

variable (fromSlice : List UInt8 → Option Value)

/-- An item as a client writes it: a line that is JSON text of the header, and a framed payload. -/
structure WireItem where
  line : List UInt8
  header : Value
  payload : List UInt8
  parses : fromSlice line = some header
  oneLine : newline ∉ line
  framed : Framed header payload

/-- An envelope as a client writes it. -/
structure WireEnvelope where
  line : List UInt8
  header : Value
  items : List (WireItem fromSlice)
  parses : fromSlice line = some header
  oneLine : newline ∉ line

variable {fromSlice}

def WireItem.toItem (w : WireItem fromSlice) : EnvelopeItem := ⟨w.header, w.payload⟩

def WireItem.bytes (w : WireItem fromSlice) : List UInt8 := w.line ++ newline :: w.payload

def WireEnvelope.toEnvelope (env : WireEnvelope fromSlice) : Envelope :=
  ⟨env.header, env.items.map WireItem.toItem⟩

/-- The bytes after the header line: a newline before each item, and perhaps a final one. -/
def itemBytes (items : List (WireItem fromSlice)) (final : Bool) : List UInt8 :=
  (items.flatMap fun w => newline :: w.bytes) ++ if final then [newline] else []

/-- The bytes of an envelope. -/
def WireEnvelope.serialize (env : WireEnvelope fromSlice) (final : Bool) : List UInt8 :=
  env.line ++ itemBytes env.items final

theorem itemBytes_cons (w : WireItem fromSlice) (ws : List (WireItem fromSlice)) (final : Bool) :
    itemBytes (w :: ws) final =
      newline :: (w.line ++ newline :: (w.payload ++ itemBytes ws final)) := by
  simp [itemBytes, WireItem.bytes]

theorem isTail_itemBytes (items : List (WireItem fromSlice)) (final : Bool) :
    IsTail (itemBytes items final) := by
  cases items with
  | nil => cases final <;> simp [IsTail, itemBytes]
  | cons w ws => exact .inr ⟨_, itemBytes_cons w ws final⟩

theorem WireItem.line_ne_nil (hempty : fromSlice [] = none) (w : WireItem fromSlice) :
    w.line ≠ [] := by
  intro h
  have hp := w.parses
  rw [h, hempty] at hp
  cases hp

theorem parseItems_itemBytes (hempty : fromSlice [] = none) (items : List (WireItem fromSlice))
    (final : Bool) {bytes : List UInt8} {cursor : ℕ} (pre : List UInt8)
    (hb : bytes = pre ++ itemBytes items final)
    (hc : cursor = pre.length + if itemBytes items final = [] then 0 else 1) :
    parseItems fromSlice bytes cursor = .ok (items.map WireItem.toItem) := by
  induction items generalizing pre cursor with
  | nil =>
    refine parseItems_end _ (nextLine_end ?_)
    subst hb hc
    cases final <;> simp [itemBytes]
  | cons w ws ih =>
    rw [itemBytes_cons] at hb hc
    have hc' : cursor = pre.length + 1 := by simpa using hc
    have hl : nextLine bytes cursor = some (w.line, cursor + w.line.length + 1) :=
      nextLine_line (pre ++ [newline]) (w.payload ++ itemBytes ws final) (by simpa using hb)
        (by simpa using hc') w.oneLine
    have hp := readPayload_framed (pre ++ [newline] ++ w.line ++ [newline]) (by simpa using hb)
      (show cursor + w.line.length + 1 = _ by simp [hc']; omega) w.framed
      (isTail_itemBytes ws final)
    rw [parseItems_item _ hl (w.line_ne_nil hempty) w.parses hp,
      ih (pre ++ [newline] ++ w.line ++ [newline] ++ w.payload) (by simpa using hb)
        (by simp [hc']; omega)]
    rfl

/-- Parsing the bytes of an envelope returns its header and its items in order. -/
theorem parse_serialize (hempty : fromSlice [] = none) (env : WireEnvelope fromSlice)
    (final : Bool) : parse fromSlice (env.serialize final) = .ok env.toEnvelope := by
  have hne : env.line ≠ [] := by
    intro h
    have hp := env.parses
    rw [h, hempty] at hp
    cases hp
  have hitems := parseItems_itemBytes hempty env.items final env.line
    (show env.serialize final = _ from rfl) rfl
  have hline : nextLine (env.serialize final) 0 =
      some (env.line, env.line.length + if itemBytes env.items final = [] then 0 else 1) := by
    rcases isTail_itemBytes env.items final with ht | ⟨rest, ht⟩
    · have h := nextLine_last [] (show env.serialize final = [] ++ env.line by
        simp [WireEnvelope.serialize, ht]) rfl env.oneLine hne
      simpa [ht] using h
    · have h := nextLine_line [] rest (show env.serialize final = [] ++ (env.line ++ newline :: rest) by
        simp [WireEnvelope.serialize, ht]) rfl env.oneLine
      simpa [ht] using h
  simp only [parse, hline, List.isEmpty_iff, hne, if_false, env.parses, hitems]
  rfl

end Wire

def asciiBytes (s : String) : List UInt8 := s.toList.map Char.toUInt8

/-- What `serde_json::from_slice` returns on the header lines of the example. -/
def exampleJson (bytes : List UInt8) : Option Value :=
  if bytes = asciiBytes "\x7b\x7d" then some (.object [])
  else if bytes = asciiBytes "\x7b\"length\":3\x7d" then
    some (.object [("length", .number (.posInt 3))])
  else none

/-- A payload with a newline of a declared length, then one that ends with its line. -/
def exampleEnvelope : WireEnvelope exampleJson where
  line := asciiBytes "\x7b\x7d"
  header := .object []
  items := [
    ⟨asciiBytes "\x7b\"length\":3\x7d", .object [("length", .number (.posInt 3))], asciiBytes "a\nb",
      rfl, by decide, .inl rfl⟩,
    ⟨asciiBytes "\x7b\x7d", .object [], asciiBytes "c", rfl, by decide, .inr ⟨rfl, by decide⟩⟩]
  parses := rfl
  oneLine := by decide

theorem parse_serialize_exampleEnvelope :
    parse exampleJson (asciiBytes "\x7b\x7d\n\x7b\"length\":3\x7d\na\nb\n\x7b\x7d\nc\n") =
      .ok exampleEnvelope.toEnvelope :=
  parse_serialize rfl exampleEnvelope true

end Soika
