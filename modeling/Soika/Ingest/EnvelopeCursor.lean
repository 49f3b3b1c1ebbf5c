import Soika.Ingest.EnvelopeGrammar

/-! # The envelope parser on a slice

The parser once more as it runs: a cursor of `usize`, ranges into the slice and a
loop that may be cut off. A sum that overflows, a range outside of the slice and a
loop that does not end give no result, and none of this happens.
-/

namespace Soika

open Slices

namespace Cursor

def nextLine (bytes : List UInt8) (cursor : ℕ) : Option (Option (List UInt8) × ℕ) := do
  if bytes.length ≤ cursor then return (none, cursor)
  let start := cursor
  let tail ← range bytes start bytes.length
  match tail.findIdx? (· = newline) with
  | some rel =>
    let stop ← checkedAdd start rel
    let next ← checkedAdd stop 1
    return (some (← range bytes start stop), next)
  | none => return (some (← range bytes start bytes.length), bytes.length)

def readPayload (bytes : List UInt8) (cursor : ℕ) (itemHeader : Value) :
    Option (Except EnvelopeError (List UInt8 × ℕ)) := do
  match declaredLength itemHeader with
  | some len =>
    let start := cursor
    match checkedAdd start len with
    | none => return .error .truncatedItem
    | some stop =>
      if bytes.length < stop then return .error .truncatedItem
      let payload ← range bytes start stop
      if h : stop < bytes.length then
        if bytes[stop] = newline then
          return .ok (payload, ← checkedAdd stop 1)
      return .ok (payload, stop)
  | none =>
    let (line, cursor) ← nextLine bytes cursor
    return .ok (line.getD [], cursor)

variable (fromSlice : List UInt8 → Option Value)

/-- The `while` loop over items, for so many rounds. -/
def parseItems (bytes : List UInt8) :
    ℕ → ℕ → List EnvelopeItem → Option (Except EnvelopeError (List EnvelopeItem))
  | 0, _, _ => none
  | rounds + 1, cursor, items =>
    if ¬ cursor < bytes.length then some (.ok items)
    else do
      match ← nextLine bytes cursor with
      | (none, _) => some (.ok items)
      | (some itemHeaderLine, cursor) =>
        if itemHeaderLine.isEmpty then parseItems bytes rounds cursor items
        else
          match fromSlice itemHeaderLine with
          | none => some (.error .itemHeaderJson)
          | some itemHeader => do
            match ← readPayload bytes cursor itemHeader with
            | .error e => some (.error e)
            | .ok (payload, cursor) =>
              parseItems bytes rounds cursor (items ++ [⟨itemHeader, payload⟩])

/-- `parse` on a slice; `none` where it panics or is still in its loop after so many rounds. -/
def parse (rounds : ℕ) (bytes : List UInt8) : Option (Except EnvelopeError Envelope) := do
  match ← nextLine bytes 0 with
  | (none, _) => some (.error .empty)
  | (some headerLine, cursor) =>
    if headerLine.isEmpty then some (.error .empty)
    else
      match fromSlice headerLine with
      | none => some (.error .headerJson)
      | some header => do
        let items ← parseItems fromSlice bytes rounds cursor []
        some (items.map (Envelope.mk header))

theorem nextLine_eq {bytes : List UInt8} (hlen : bytes.length ≤ isizeMax) (cursor : ℕ) :
    nextLine bytes cursor =
      some (match Soika.nextLine bytes cursor with
        | none => (none, cursor)
        | some (line, next) => (some line, next)) := by
  unfold nextLine Soika.nextLine
  split
  · rfl
  · rename_i hlt
    have htail : range bytes cursor bytes.length = some (bytes.drop cursor) :=
      range_length (by omega)
    cases hidx : (bytes.drop cursor).findIdx? (· = newline) with
    | none => simp [htail, hidx]
    | some rel =>
      have hrel : cursor + rel + 1 ≤ bytes.length := by
        have := (List.findIdx?_eq_some_iff_getElem.mp hidx).1
        rw [List.length_drop] at this
        omega
      have hstop := checkedAdd_of_le (a := cursor) (b := rel) hlen (by omega)
      have hnext := checkedAdd_of_le (a := cursor + rel) (b := 1) hlen (by omega)
      have hline := range_eq_some (s := bytes) (Nat.le_add_right cursor rel) (by omega)
      simp [htail, hidx, hstop, hnext, hline]

theorem readPayload_eq {bytes : List UInt8} (hlen : bytes.length ≤ isizeMax) {cursor : ℕ}
    (itemHeader : Value) :
    readPayload bytes cursor itemHeader = some (Soika.readPayload bytes cursor itemHeader) := by
  unfold readPayload Soika.readPayload
  cases hd : declaredLength itemHeader with
  | none =>
    simp only [nextLine_eq hlen]
    cases Soika.nextLine bytes cursor <;> rfl
  | some len =>
    by_cases hle : bytes.length < cursor + len
    · simp only [hle, if_true]
      cases hadd : checkedAdd cursor len with
      | none => rfl
      | some stop =>
        have : stop = cursor + len := by
          unfold checkedAdd at hadd
          split at hadd
          · exact (Option.some.inj hadd).symm
          · cases hadd
        subst this
        simp [hle]
    · have hstop := checkedAdd_of_le (a := cursor) (b := len) hlen (by omega)
      have hnext := checkedAdd_of_le (a := cursor + len) (b := 1) hlen (by omega)
      have hslice := range_eq_some (s := bytes) (Nat.le_add_right cursor len) (by omega)
      simp only [hstop, hle, if_false, hslice]
      by_cases hlt : cursor + len < bytes.length
      · by_cases hnl : bytes[cursor + len] = newline <;> simp [hlt, hnl, hnext]
      · simp [hlt]

/-- The loop ends: each of its rounds moves the cursor towards the end. -/
theorem parseItems_eq {bytes : List UInt8} (hlen : bytes.length ≤ isizeMax) {rounds cursor : ℕ}
    (items : List EnvelopeItem) (hr : bytes.length - cursor < rounds) :
    parseItems fromSlice bytes rounds cursor items =
      some ((Soika.parseItems fromSlice bytes cursor).map (items ++ ·)) := by
  induction rounds generalizing cursor items with
  | zero => omega
  | succ rounds ih =>
    unfold parseItems
    cases hl : Soika.nextLine bytes cursor with
    | none =>
      rw [parseItems_end _ hl, nextLine_eq hlen, hl]
      simp [Except.map]
    | some r =>
      obtain ⟨line, next⟩ := r
      obtain ⟨hmove, hlt⟩ := nextLine_cursor hl
      rw [nextLine_eq hlen, hl]
      simp only [hlt, not_true, if_false, Option.bind_eq_bind, Option.bind_some]
      by_cases hempty : line = []
      · subst hempty
        simpa [parseItems_blank hl] using ih items (by omega)
      · simp only [List.isEmpty_iff, hempty, if_false]
        cases hh : fromSlice line with
        | none =>
          rw [parseItems_badHeader hl hempty hh]
          rfl
        | some header =>
          simp only [readPayload_eq hlen, Option.bind_some]
          cases hp : Soika.readPayload bytes next header with
          | error e =>
            rw [parseItems_badPayload hl hempty hh hp]
            rfl
          | ok r =>
            obtain ⟨payload, after⟩ := r
            have := readPayload_cursor hp
            simp only [parseItems_item fromSlice hl hempty hh hp]
            rw [ih _ (by omega)]
            cases Soika.parseItems fromSlice bytes after <;> simp [Except.map]

theorem parse_eq (input : Slice UInt8) {rounds : ℕ} (hr : input.elems.length < rounds) :
    parse fromSlice rounds input.elems = some (Soika.parse fromSlice input.elems) := by
  unfold parse Soika.parse
  rw [nextLine_eq input.length_le]
  cases hl : Soika.nextLine input.elems 0 with
  | none => rfl
  | some r =>
    obtain ⟨line, cursor⟩ := r
    simp only [Option.bind_eq_bind, Option.bind_some]
    split
    · rfl
    · cases hh : fromSlice line with
      | none => rfl
      | some header =>
        simp only [parseItems_eq fromSlice input.length_le [] (show _ - cursor < rounds by omega),
          Option.bind_some]
        cases Soika.parseItems fromSlice input.elems cursor <;> rfl

end Cursor

/-- The parser accepts its grammar, reports the first place where a text leaves it, and cuts
its payloads out of the input. On a slice it ends without a panic. -/
structure ReadsGrammar (fromSlice : List UInt8 → Option Value) (bytes : List UInt8) : Prop where
  accepts : ∀ env, parse fromSlice bytes = .ok env ↔
    ∃ rest, Headed fromSlice bytes env.header rest ∧ Items fromSlice rest env.items []
  payloads : ∀ env, parse fromSlice bytes = .ok env →
    ∃ spans, Span.InOrder spans ∧
      (spans.Pairwise fun p q => ∀ i, ¬ (p.start ≤ i ∧ i < p.stop ∧ q.start ≤ i ∧ i < q.stop)) ∧
      List.Forall₂ (PayloadAt bytes) env.items spans
  empty : parse fromSlice bytes = .error .empty ↔ NoHeader bytes
  headerJson : parse fromSlice bytes = .error .headerJson ↔ BadHeader fromSlice bytes
  truncatedItem : parse fromSlice bytes = .error .truncatedItem ↔
    ∃ header after items rest, Headed fromSlice bytes header after ∧
      Items fromSlice after items rest ∧ Faulty fromSlice rest .truncatedItem
  itemHeaderJson : parse fromSlice bytes = .error .itemHeaderJson ↔
    ∃ header after items rest, Headed fromSlice bytes header after ∧
      Items fromSlice after items rest ∧ Faulty fromSlice rest .itemHeaderJson
  noOther : parse fromSlice bytes ≠ .error .itemPayloadJson
  noPanic : ∀ input : Slice UInt8, input.elems = bytes → ∀ rounds, bytes.length < rounds →
    Cursor.parse fromSlice rounds bytes = some (parse fromSlice bytes)

theorem Faulty.cases_error {fromSlice : List UInt8 → Option Value} {s : List UInt8}
    {e : EnvelopeError} (h : Faulty fromSlice s e) : e = .itemHeaderJson ∨ e = .truncatedItem := by
  cases h with
  | header => exact .inl rfl
  | truncated => exact .inr rfl

theorem payloads_of_parse {fromSlice : List UInt8 → Option Value} {bytes : List UInt8}
    {env : Envelope} (h : parse fromSlice bytes = .ok env) :
    ∃ spans, Span.InOrder spans ∧ List.Forall₂ (PayloadAt bytes) env.items spans := by
  obtain ⟨rest, ⟨line, hl, -⟩, hitems⟩ := parse_eq_ok_iff.mp h
  obtain ⟨read, rfl, -⟩ := hl.nextLine
  obtain ⟨spans, hord, -, hat⟩ := hitems.spans read
  exact ⟨spans, hord, hat⟩

theorem parse_reads_grammar (fromSlice : List UInt8 → Option Value) (bytes : List UInt8) :
    ReadsGrammar fromSlice bytes where
  accepts env := parse_eq_ok_iff
  payloads env h := by
    obtain ⟨spans, hord, hat⟩ := payloads_of_parse h
    exact ⟨spans, hord, hord.disjoint, hat⟩
  empty := by
    rw [parse_eq_error_iff]
    constructor
    · rintro (⟨-, h⟩ | ⟨h, -⟩ | ⟨_, _, _, _, -, -, hf⟩)
      · exact h
      · cases h
      · rcases hf.cases_error with h | h <;> cases h
    · exact fun h => .inl ⟨rfl, h⟩
  headerJson := by
    rw [parse_eq_error_iff]
    constructor
    · rintro (⟨h, -⟩ | ⟨-, h⟩ | ⟨_, _, _, _, -, -, hf⟩)
      · cases h
      · exact h
      · rcases hf.cases_error with h | h <;> cases h
    · exact fun h => .inr (.inl ⟨rfl, h⟩)
  truncatedItem := by simp [parse_eq_error_iff]
  itemHeaderJson := by simp [parse_eq_error_iff]
  noOther h := by
    rcases parse_eq_error_iff.mp h with ⟨h, -⟩ | ⟨h, -⟩ | ⟨_, _, _, _, -, -, hf⟩
    · cases h
    · cases h
    · rcases hf.cases_error with h | h <;> cases h
  noPanic input hin rounds hr := by
    subst hin
    exact Cursor.parse_eq fromSlice input hr

end Soika
