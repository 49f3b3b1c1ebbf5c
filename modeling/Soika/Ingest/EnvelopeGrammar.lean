import Soika.Ingest.EnvelopeFormat
import Soika.Library.Slice

/-! # The envelope grammar

What a byte string has to be for the parser to read it, without cursors: lines,
payloads and items as relations between a text and what is left of it. The parser
reads exactly this grammar and reports the first place where the text leaves it.
-/

namespace Soika

open Slices

/-- The first line of a text, and what follows it; the last line may miss its newline. -/
inductive Line : List UInt8 → List UInt8 → List UInt8 → Prop
  | terminated {line rest : List UInt8} (h : newline ∉ line) :
      Line (line ++ newline :: rest) line rest
  | last {line : List UInt8} (h : newline ∉ line) (hne : line ≠ []) : Line line line []

/-- The payload announced by an item header: as many bytes as it declares, with the newline
after them, or a line. -/
inductive Payload (itemHeader : Value) : List UInt8 → List UInt8 → List UInt8 → Prop
  | sizedLine {payload rest : List UInt8} (h : declaredLength itemHeader = some payload.length) :
      Payload itemHeader (payload ++ newline :: rest) payload rest
  | sized {payload rest : List UInt8} (h : declaredLength itemHeader = some payload.length)
      (hrest : rest.head? ≠ some newline) : Payload itemHeader (payload ++ rest) payload rest
  | line {s payload rest : List UInt8} (h : declaredLength itemHeader = none)
      (hl : Line s payload rest) : Payload itemHeader s payload rest
  | missing (h : declaredLength itemHeader = none) : Payload itemHeader [] [] []

theorem Line.nextLine {s line rest : List UInt8} (h : Line s line rest) :
    ∃ read, s = read ++ rest ∧
      ∀ pre, nextLine (pre ++ s) pre.length = some (line, (pre ++ read).length) := by
  cases h with
  | terminated h =>
    refine ⟨line ++ [newline], by simp, fun pre => ?_⟩
    rw [nextLine_line pre rest rfl rfl h]
    simp [Nat.add_assoc]
  | last h hne =>
    refine ⟨s, by simp, fun pre => ?_⟩
    rw [nextLine_last pre rfl rfl h hne]
    simp

theorem line_of_nextLine {bytes line : List UInt8} {cursor next : ℕ}
    (h : nextLine bytes cursor = some (line, next)) :
    next ≤ bytes.length ∧ Line (bytes.drop cursor) line (bytes.drop next) := by
  unfold nextLine at h
  split at h
  · cases h
  · rename_i hlt
    split at h
    · rename_i rel hidx
      simp only [Option.some.injEq, Prod.mk.injEq] at h
      obtain ⟨rfl, rfl⟩ := h
      obtain ⟨hrel, hnl, hbefore⟩ := List.findIdx?_eq_some_iff_getElem.mp hidx
      have hnl' : (bytes.drop cursor)[rel] = newline := by simpa using hnl
      have hsplit : bytes.drop cursor =
          (bytes.drop cursor).take rel ++ newline :: bytes.drop (cursor + rel + 1) := by
        conv_lhs =>
          rw [← List.take_append_drop rel (bytes.drop cursor),
          List.drop_eq_getElem_cons hrel, hnl', List.drop_drop]
        rfl
      refine ⟨by rw [List.length_drop] at hrel; omega, ?_⟩
      have hno : newline ∉ (bytes.drop cursor).take rel := by
        intro hm
        obtain ⟨i, hi, hget⟩ := List.getElem_of_mem hm
        rw [List.length_take] at hi
        rw [List.getElem_take] at hget
        exact hbefore i (by omega) (by simpa using hget)
      have hline := @Line.terminated _ (bytes.drop (cursor + rel + 1)) hno
      rwa [← hsplit] at hline
    · rename_i hidx
      simp only [Option.some.injEq, Prod.mk.injEq] at h
      obtain ⟨rfl, rfl⟩ := h
      rw [List.drop_length]
      refine ⟨Nat.le_refl _, .last ?_ ?_⟩
      · intro hm
        exact absurd (List.findIdx?_eq_none_iff.mp hidx _ hm) (by simp)
      · intro hnil
        rw [List.drop_eq_nil_iff] at hnil
        exact hlt hnil

theorem drop_of_nextLine {bytes : List UInt8} {cursor : ℕ} (h : nextLine bytes cursor = none) :
    bytes.drop cursor = [] := by
  rw [List.drop_eq_nil_iff]
  unfold nextLine at h
  split at h
  · assumption
  · split at h <;> cases h

theorem Line.eq_blank {s rest : List UInt8} (h : Line s [] rest) : s = newline :: rest := by
  cases h with
  | terminated h => rfl
  | last h hne => exact absurd rfl hne

theorem Payload.readPayload {itemHeader : Value} {s payload rest : List UInt8}
    (h : Payload itemHeader s payload rest) :
    ∃ read, s = read ++ rest ∧ ∀ pre,
      readPayload (pre ++ s) pre.length itemHeader = .ok (payload, (pre ++ read).length) := by
  cases h with
  | sizedLine h =>
    refine ⟨payload ++ [newline], by simp, fun pre => ?_⟩
    simp [Soika.readPayload, h, Nat.add_assoc]
  | sized h hrest =>
    refine ⟨payload, rfl, fun pre => ?_⟩
    have hend : (pre ++ (payload ++ rest))[pre.length + payload.length]? ≠ some newline := by
      rw [← List.append_assoc, ← List.length_append, List.getElem?_append_right (Nat.le_refl _)]
      rwa [Nat.sub_self, ← List.head?_eq_getElem?]
    simp [Soika.readPayload, h, hend]
  | line h hl =>
    obtain ⟨read, hs, hread⟩ := hl.nextLine
    refine ⟨read, hs, fun pre => ?_⟩
    simp [Soika.readPayload, h, hread]
  | missing h =>
    refine ⟨[], rfl, fun pre => ?_⟩
    simp [Soika.readPayload, h, nextLine_end]

theorem payload_of_readPayload {itemHeader : Value} {bytes payload : List UInt8}
    {cursor next : ℕ} (hc : cursor ≤ bytes.length)
    (h : readPayload bytes cursor itemHeader = .ok (payload, next)) :
    next ≤ bytes.length ∧ Payload itemHeader (bytes.drop cursor) payload (bytes.drop next) := by
  unfold readPayload at h
  split at h
  · rename_i len hlen
    split at h
    · cases h
    · rename_i hle
      simp only [Except.ok.injEq, Prod.mk.injEq] at h
      obtain ⟨rfl, hnext⟩ := h
      have hlen' : declaredLength itemHeader = some ((bytes.drop cursor).take len).length := by
        rw [hlen, List.length_take, List.length_drop]
        congr 1
        omega
      have hsplit := (List.take_append_drop len (bytes.drop cursor)).symm
      rw [List.drop_drop] at hsplit
      split at hnext
      · rename_i hnl
        subst hnext
        obtain ⟨hlt, hget⟩ := List.getElem?_eq_some_iff.mp hnl
        rw [List.drop_eq_getElem_cons hlt, hget] at hsplit
        refine ⟨hlt, ?_⟩
        have hp := @Payload.sizedLine _ _ (bytes.drop (cursor + len + 1)) hlen'
        rwa [← hsplit] at hp
      · rename_i hnl
        subst hnext
        refine ⟨by omega, ?_⟩
        have hp := @Payload.sized _ _ (bytes.drop (cursor + len)) hlen'
          (by rwa [List.head?_drop])
        rwa [← hsplit] at hp
  · rename_i hlen
    simp only [Except.ok.injEq] at h
    cases hl : nextLine bytes cursor with
    | none =>
      rw [hl] at h
      cases h
      exact ⟨hc, by rw [drop_of_nextLine hl]; exact .missing hlen⟩
    | some r =>
      rw [hl] at h
      cases h
      obtain ⟨hle, hline⟩ := line_of_nextLine hl
      exact ⟨hle, .line hlen hline⟩

theorem readPayload_eq_error {itemHeader : Value} {bytes : List UInt8} {cursor : ℕ}
    {e : EnvelopeError} (h : readPayload bytes cursor itemHeader = .error e) :
    e = .truncatedItem ∧
      ∃ len, declaredLength itemHeader = some len ∧ bytes.length < cursor + len := by
  unfold readPayload at h
  split at h
  · rename_i len hlen
    split at h
    · rename_i hlt
      cases h
      exact ⟨rfl, len, hlen, hlt⟩
    · cases h
  · cases h

section Items

variable (fromSlice : List UInt8 → Option Value)

/-- A text that starts with these items, blank lines between them, and what follows them. -/
inductive Items : List UInt8 → List EnvelopeItem → List UInt8 → Prop
  | nil {s : List UInt8} : Items s [] s
  | blank {s rest : List UInt8} {items : List EnvelopeItem} (h : Items s items rest) :
      Items (newline :: s) items rest
  | item {s line afterLine payload afterPayload rest : List UInt8} {header : Value}
      {items : List EnvelopeItem} (hl : Line s line afterLine) (hne : line ≠ [])
      (hh : fromSlice line = some header) (hp : Payload header afterLine payload afterPayload)
      (h : Items afterPayload items rest) : Items s (⟨header, payload⟩ :: items) rest

inductive Faulty : List UInt8 → EnvelopeError → Prop
  | header {s line rest : List UInt8} (hl : Line s line rest) (hne : line ≠ [])
      (hh : fromSlice line = none) : Faulty s .itemHeaderJson
  | truncated {s line rest : List UInt8} {header : Value} {len : ℕ} (hl : Line s line rest)
      (hne : line ≠ []) (hh : fromSlice line = some header)
      (hlen : declaredLength header = some len) (hlt : rest.length < len) :
      Faulty s .truncatedItem

variable {fromSlice}

theorem parseItems_blank {bytes : List UInt8} {cursor next : ℕ}
    (hl : nextLine bytes cursor = some ([], next)) :
    parseItems fromSlice bytes cursor = parseItems fromSlice bytes next := by
  rw [parseItems]
  split
  · simp_all
  · rename_i l c heq
    obtain ⟨rfl, rfl⟩ : l = [] ∧ c = next := by simp_all
    rfl

theorem parseItems_badHeader {bytes line : List UInt8} {cursor next : ℕ}
    (hl : nextLine bytes cursor = some (line, next)) (hne : line ≠ [])
    (hh : fromSlice line = none) :
    parseItems fromSlice bytes cursor = .error .itemHeaderJson := by
  rw [parseItems]
  split
  · simp_all
  · rename_i l c heq
    obtain ⟨rfl, rfl⟩ : l = line ∧ c = next := by simp_all
    simp only [List.isEmpty_iff, hne, if_false, hh]

/-- The last round of the loop on a payload that cannot be read. -/
theorem parseItems_badPayload {bytes line : List UInt8} {cursor next : ℕ} {header : Value}
    {e : EnvelopeError} (hl : nextLine bytes cursor = some (line, next)) (hne : line ≠ [])
    (hh : fromSlice line = some header) (hp : readPayload bytes next header = .error e) :
    parseItems fromSlice bytes cursor = .error e := by
  rw [parseItems]
  split
  · simp_all
  · rename_i l c heq
    obtain ⟨rfl, rfl⟩ : l = line ∧ c = next := by simp_all
    simp only [List.isEmpty_iff, hne, if_false, hh]
    split <;> simp_all

theorem Items.parseItems {s rest : List UInt8} {items : List EnvelopeItem}
    (h : Items fromSlice s items rest) :
    ∃ read, s = read ++ rest ∧ ∀ pre,
      parseItems fromSlice (pre ++ s) pre.length =
        (parseItems fromSlice (pre ++ s) (pre ++ read).length).map (items ++ ·) := by
  induction h with
  | nil =>
    refine ⟨[], rfl, fun pre => ?_⟩
    rw [List.append_nil]
    cases Soika.parseItems fromSlice (pre ++ _) pre.length <;> rfl
  | @blank s rest items _ ih =>
    obtain ⟨read, rfl, hread⟩ := ih
    refine ⟨newline :: read, rfl, fun pre => ?_⟩
    have hl : nextLine (pre ++ newline :: (read ++ rest)) pre.length = some ([], pre.length + 1) :=
      nextLine_line pre (read ++ rest) rfl rfl (List.not_mem_nil)
    rw [parseItems_blank hl]
    simpa [Nat.add_assoc, Nat.add_comm 1] using hread (pre ++ [newline])
  | item hl hne hh hp _ ih =>
    obtain ⟨r₁, rfl, hline⟩ := hl.nextLine
    obtain ⟨r₂, rfl, hpayload⟩ := hp.readPayload
    obtain ⟨r₃, rfl, hread⟩ := ih
    refine ⟨r₁ ++ (r₂ ++ r₃), by simp, fun pre => ?_⟩
    have hp' := hpayload (pre ++ r₁)
    have hrest := hread (pre ++ r₁ ++ r₂)
    simp only [List.append_assoc] at hp' hrest ⊢
    rw [parseItems_item fromSlice (hline pre) hne hh hp', hrest]
    cases Soika.parseItems fromSlice _ (pre ++ (r₁ ++ (r₂ ++ r₃))).length <;> rfl

theorem Faulty.parseItems {s : List UInt8} {e : EnvelopeError} (h : Faulty fromSlice s e)
    (pre : List UInt8) : parseItems fromSlice (pre ++ s) pre.length = .error e := by
  cases h with
  | header hl hne hh =>
    obtain ⟨read, -, hline⟩ := hl.nextLine
    exact parseItems_badHeader (hline pre) hne hh
  | truncated hl hne hh hlen hlt =>
    obtain ⟨read, rfl, hline⟩ := hl.nextLine
    refine parseItems_badPayload (hline pre) hne hh ?_
    simp only [readPayload, hlen]
    rw [if_pos]
    simp only [List.length_append]
    omega

variable (fromSlice) in
/-- The loop reads items up to the end of the text, or up to its first faulty item. -/
inductive Outcome (s : List UInt8) : Except EnvelopeError (List EnvelopeItem) → Prop
  | read {items : List EnvelopeItem} (h : Items fromSlice s items []) : Outcome s (.ok items)
  | stopped {items : List EnvelopeItem} {rest : List UInt8} {e : EnvelopeError}
      (h : Items fromSlice s items rest) (hf : Faulty fromSlice rest e) : Outcome s (.error e)

theorem Outcome.blank {s : List UInt8} {r : Except EnvelopeError (List EnvelopeItem)}
    (h : Outcome fromSlice s r) : Outcome fromSlice (newline :: s) r := by
  cases h with
  | read h => exact .read (.blank h)
  | stopped h hf => exact .stopped (.blank h) hf

theorem Outcome.item {s line afterLine payload afterPayload : List UInt8} {header : Value}
    {r : Except EnvelopeError (List EnvelopeItem)} (hl : Line s line afterLine) (hne : line ≠ [])
    (hh : fromSlice line = some header) (hp : Payload header afterLine payload afterPayload)
    (h : Outcome fromSlice afterPayload r) :
    Outcome fromSlice s (r.map (⟨header, payload⟩ :: ·)) := by
  cases h with
  | read h => exact .read (.item hl hne hh hp h)
  | stopped h hf => exact .stopped (.item hl hne hh hp h) hf

variable (fromSlice) in
theorem parseItems_outcome (bytes : List UInt8) (cursor : ℕ) (hc : cursor ≤ bytes.length) :
    Outcome fromSlice (bytes.drop cursor) (parseItems fromSlice bytes cursor) := by
  fun_induction parseItems fromSlice bytes cursor with
  | case1 cursor hl =>
    rw [drop_of_nextLine hl]
    exact .read .nil
  | case2 cursor line next hl hempty ih =>
    obtain rfl := List.isEmpty_iff.mp hempty
    obtain ⟨hle, hline⟩ := line_of_nextLine hl
    rw [hline.eq_blank]
    exact (ih hle).blank
  | case3 cursor line next hl hne hh =>
    obtain ⟨-, hline⟩ := line_of_nextLine hl
    exact .stopped .nil (.header hline (by simpa using hne) hh)
  | case4 cursor line next hl hne header hh e hp =>
    obtain ⟨hle, hline⟩ := line_of_nextLine hl
    obtain ⟨rfl, len, hlen, hlt⟩ := readPayload_eq_error hp
    refine .stopped .nil (.truncated hline (by simpa using hne) hh hlen ?_)
    rw [List.length_drop]
    omega
  | case5 cursor line next hl hne header hh payload after hp ih =>
    obtain ⟨hle, hline⟩ := line_of_nextLine hl
    obtain ⟨hle', hpayload⟩ := payload_of_readPayload hle hp
    have hitem := (ih hle').item hline (by simpa using hne) hh hpayload
    cases hr : parseItems fromSlice bytes after <;> rw [hr] at hitem <;> exact hitem

theorem parseItems_eq_iff (pre s : List UInt8) (r : Except EnvelopeError (List EnvelopeItem)) :
    parseItems fromSlice (pre ++ s) pre.length = r ↔ Outcome fromSlice s r := by
  constructor
  · rintro rfl
    simpa using parseItems_outcome fromSlice (pre ++ s) pre.length (by simp)
  · intro h
    cases h with
    | read h =>
      obtain ⟨read, rfl, hread⟩ := h.parseItems
      rw [hread, parseItems_end _ (nextLine_end (by simp))]
      simp [Except.map]
    | stopped h hf =>
      obtain ⟨read, rfl, hread⟩ := h.parseItems
      have hstop := hf.parseItems (pre ++ read)
      rw [hread, ← List.append_assoc, hstop]
      rfl

variable (fromSlice) in
/-- The first line is the JSON text of the envelope header. -/
def Headed (bytes : List UInt8) (header : Value) (rest : List UInt8) : Prop :=
  ∃ line, Line bytes line rest ∧ line ≠ [] ∧ fromSlice line = some header

variable (fromSlice) in
/-- The first line is neither empty nor JSON. -/
def BadHeader (bytes : List UInt8) : Prop :=
  ∃ line rest, Line bytes line rest ∧ line ≠ [] ∧ fromSlice line = none

/-- There is no first line, or it is empty. -/
def NoHeader (bytes : List UInt8) : Prop := bytes = [] ∨ ∃ rest, Line bytes [] rest

variable (fromSlice) in
theorem header_cases (bytes : List UInt8) :
    NoHeader bytes ∨ BadHeader fromSlice bytes ∨
      ∃ header rest, Headed fromSlice bytes header rest := by
  cases hl : nextLine bytes 0 with
  | none => exact .inl (.inl (by simpa using drop_of_nextLine hl))
  | some r =>
    obtain ⟨line, next⟩ := r
    obtain ⟨-, hline⟩ := line_of_nextLine hl
    rw [List.drop_zero] at hline
    by_cases hne : line = []
    · subst hne
      exact .inl (.inr ⟨_, hline⟩)
    · cases hh : fromSlice line with
      | none => exact .inr (.inl ⟨line, _, hline, hne, hh⟩)
      | some header => exact .inr (.inr ⟨header, _, line, hline, hne, hh⟩)

theorem parse_noHeader {bytes : List UInt8} (h : NoHeader bytes) :
    parse fromSlice bytes = .error .empty := by
  rcases h with rfl | ⟨rest, hl⟩
  · rfl
  · obtain ⟨read, rfl, hread⟩ := hl.nextLine
    have h0 := hread []
    rw [List.nil_append, List.length_nil] at h0
    simp [parse, h0]

theorem parse_badHeader {bytes : List UInt8} (h : BadHeader fromSlice bytes) :
    parse fromSlice bytes = .error .headerJson := by
  obtain ⟨line, rest, hl, hne, hh⟩ := h
  obtain ⟨read, rfl, hread⟩ := hl.nextLine
  have h0 := hread []
  rw [List.nil_append, List.length_nil] at h0
  simp [parse, h0, hne, hh]

theorem parse_headed {bytes rest : List UInt8} {header : Value}
    {r : Except EnvelopeError (List EnvelopeItem)} (h : Headed fromSlice bytes header rest)
    (ho : Outcome fromSlice rest r) : parse fromSlice bytes = r.map (Envelope.mk header) := by
  obtain ⟨line, hl, hne, hh⟩ := h
  obtain ⟨read, rfl, hread⟩ := hl.nextLine
  have h0 := hread []
  rw [List.nil_append, List.length_nil] at h0
  have hitems := (parseItems_eq_iff read rest r).mpr ho
  simp only [parse, h0, List.isEmpty_iff, hne, if_false, hh, List.nil_append, hitems]
  cases r <;> rfl

variable (fromSlice) in
theorem outcome_exists (rest : List UInt8) : ∃ r, Outcome fromSlice rest r :=
  ⟨_, (parseItems_eq_iff [] rest _).mp rfl⟩

theorem parse_eq_ok_iff {bytes : List UInt8} {env : Envelope} :
    parse fromSlice bytes = .ok env ↔
      ∃ rest, Headed fromSlice bytes env.header rest ∧ Items fromSlice rest env.items [] := by
  constructor
  · intro h
    rcases header_cases fromSlice bytes with hno | hbad | ⟨header, rest, hhead⟩
    · rw [parse_noHeader hno] at h
      cases h
    · rw [parse_badHeader hbad] at h
      cases h
    · obtain ⟨r, ho⟩ := outcome_exists fromSlice rest
      rw [parse_headed hhead ho] at h
      cases ho with
      | read hitems =>
        cases h
        exact ⟨rest, hhead, hitems⟩
      | stopped _ _ => cases h
  · rintro ⟨rest, hhead, hitems⟩
    rw [parse_headed hhead (.read hitems)]
    rfl

theorem parse_eq_error_iff {bytes : List UInt8} {e : EnvelopeError} :
    parse fromSlice bytes = .error e ↔
      e = .empty ∧ NoHeader bytes ∨ e = .headerJson ∧ BadHeader fromSlice bytes ∨
        ∃ header after items rest, Headed fromSlice bytes header after ∧
          Items fromSlice after items rest ∧ Faulty fromSlice rest e := by
  constructor
  · intro h
    rcases header_cases fromSlice bytes with hno | hbad | ⟨header, rest, hhead⟩
    · rw [parse_noHeader hno] at h
      cases h
      exact .inl ⟨rfl, hno⟩
    · rw [parse_badHeader hbad] at h
      cases h
      exact .inr (.inl ⟨rfl, hbad⟩)
    · obtain ⟨r, ho⟩ := outcome_exists fromSlice rest
      rw [parse_headed hhead ho] at h
      cases ho with
      | read _ => cases h
      | stopped hitems hf =>
        cases h
        exact .inr (.inr ⟨header, rest, _, _, hhead, hitems, hf⟩)
  · rintro (⟨rfl, hno⟩ | ⟨rfl, hbad⟩ | ⟨header, after, items, rest, hhead, hitems, hf⟩)
    · exact parse_noHeader hno
    · exact parse_badHeader hbad
    · rw [parse_headed hhead (.stopped hitems hf)]
      rfl

end Items

/-- The payload of an item is what the input has at a span: as many bytes as the item header
declares, or else a whole line. -/
structure PayloadAt (bytes : List UInt8) (item : EnvelopeItem) (p : Span) : Prop where
  slice : item.payload = p.of bytes
  inBounds : p.stop ≤ bytes.length
  declared : ∀ len, declaredLength item.header = some len → p.stop - p.start = len
  line : declaredLength item.header = none →
    newline ∉ item.payload ∧ (p.stop = bytes.length ∨ bytes[p.stop]? = some newline)

theorem Line.framed {s line rest : List UInt8} (h : Line s line rest) :
    ∃ tail, s = line ++ (tail ++ rest) ∧ newline ∉ line ∧ IsTail (tail ++ rest) := by
  cases h with
  | terminated h => exact ⟨[newline], rfl, h, .inr ⟨rest, rfl⟩⟩
  | last h hne => exact ⟨[], by simp, h, .inl rfl⟩

theorem Payload.framed {itemHeader : Value} {s payload rest : List UInt8}
    (h : Payload itemHeader s payload rest) :
    ∃ tail, s = payload ++ (tail ++ rest) ∧
      (∀ len, declaredLength itemHeader = some len → payload.length = len) ∧
      (declaredLength itemHeader = none → newline ∉ payload ∧ IsTail (tail ++ rest)) := by
  cases h with
  | sizedLine h => exact ⟨[newline], rfl, by simp [h], by simp [h]⟩
  | sized h hrest => exact ⟨[], rfl, by simp [h], by simp [h]⟩
  | line h hl =>
    obtain ⟨tail, hs, hno, htail⟩ := hl.framed
    exact ⟨tail, hs, by simp [h], fun _ => ⟨hno, htail⟩⟩
  | missing h => exact ⟨[], rfl, by simp [h], fun _ => ⟨List.not_mem_nil, .inl rfl⟩⟩

def spanAfter (pre body : List UInt8) : Span :=
  ⟨pre.length, pre.length + body.length, Nat.le_add_right ..⟩

theorem payloadAt_spanAfter (pre post : List UInt8) (item : EnvelopeItem)
    (hlen : ∀ len, declaredLength item.header = some len → item.payload.length = len)
    (hline : declaredLength item.header = none → newline ∉ item.payload ∧ IsTail post) :
    PayloadAt (pre ++ (item.payload ++ post)) item (spanAfter pre item.payload) where
  slice := ((spanAfter pre item.payload).of_append _ _ _ rfl rfl).symm
  inBounds := by
    simp only [spanAfter, List.length_append]
    omega
  declared len h := by simp [spanAfter, hlen len h]
  line h := by
    refine ⟨(hline h).1, ?_⟩
    rcases (hline h).2 with rfl | ⟨after, rfl⟩
    · exact .inl (by simp [spanAfter])
    · refine .inr ?_
      have hstop : (spanAfter pre item.payload).stop = (pre ++ item.payload).length := by
        simp [spanAfter]
      rw [hstop, ← List.append_assoc, List.getElem?_append_right (Nat.le_refl _), Nat.sub_self]
      rfl

theorem Items.spans {fromSlice : List UInt8 → Option Value} {s rest : List UInt8}
    {items : List EnvelopeItem} (h : Items fromSlice s items rest) (pre : List UInt8) :
    ∃ spans, Span.InOrder spans ∧ (∀ p ∈ spans, pre.length ≤ p.start) ∧
      List.Forall₂ (PayloadAt (pre ++ s)) items spans := by
  induction h generalizing pre with
  | nil => exact ⟨[], .nil, by simp, .nil⟩
  | @blank s rest items _ ih =>
    obtain ⟨spans, hord, hfrom, hat⟩ := ih (pre ++ [newline])
    refine ⟨spans, hord, fun p hp => ?_, by simpa using hat⟩
    have := hfrom p hp
    simp only [List.length_append] at this
    omega
  | @item s line afterLine payload afterPayload rest header items hl hne hh hp _ ih =>
    obtain ⟨read, rfl, -⟩ := hl.nextLine
    obtain ⟨tail, rfl, hlen, hline⟩ := hp.framed
    obtain ⟨spans, hord, hfrom, hat⟩ := ih (pre ++ read ++ payload ++ tail)
    have hfrom' : ∀ q ∈ spans, (pre ++ read).length + payload.length ≤ q.start := by
      intro q hq
      have := hfrom q hq
      simp only [List.length_append] at this ⊢
      omega
    have hhead := payloadAt_spanAfter (pre ++ read) (tail ++ afterPayload) ⟨header, payload⟩
      hlen hline
    refine ⟨spanAfter (pre ++ read) payload :: spans, .cons hfrom' hord, ?_,
      .cons (by simpa using hhead) (by simpa using hat)⟩
    intro q hq
    rcases List.mem_cons.mp hq with rfl | hq
    · simp [spanAfter]
    · have := hfrom' q hq
      simp only [List.length_append] at this
      omega

end Soika
