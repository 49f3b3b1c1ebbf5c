import Soika.Library.Pool
import Soika.Grouping.SqlitePipeline

/-! # Phases of an ingest

Among other programs an ingest makes its calls at any later time, but always the
same ones: an upsert, an insert and, under an event rate, a count and a status
write. Its phases say which calls it has made, with which answers, and what is
left of it.
-/

namespace Soika

open Interaction

abbrev IngestStep := Transition sqliteCalls Error Store

abbrev IngestThread := Thread sqliteCalls Error Store IngestOutcome

/-- One run of the pipeline for an event. -/
structure Attempt where
  input : IngestInput
  seenAt : Timestamp
  ambient : Ambient

def Attempt.prog (G : Grouping) (a : Attempt) : Prog sqliteCalls Error IngestOutcome :=
  sqliteIngest G a.ambient a.input a.seenAt

section Steps

variable (G : Grouping) (a : Attempt) (before after : Store)

def upsertStep (r : Except Error UpsertOutcome) : IngestStep :=
  ⟨before, .upsert (a.input.upsert G a.seenAt) a.ambient.draws, r, after⟩

def insertStep (o : UpsertOutcome) (r : Except Error Event) : IngestStep :=
  ⟨before, .store (.insertEvent (a.input.newEvent o.issue.id a.seenAt)), r, after⟩

def countStep (o : UpsertOutcome) (since : Timestamp) (r : Except Error ℤ) : IngestStep :=
  ⟨before, .store (.countInWindow o.issue.id since), r, after⟩

def statusStep (o : UpsertOutcome) (r : Except Error Issue) : IngestStep :=
  ⟨before, .store (.setStatus o.issue.id .unresolved a.ambient.wall), r, after⟩

end Steps

/-- The program that is left once the count has reached the threshold. -/
def writeStatus (G : Grouping) (a : Attempt) (o : UpsertOutcome) (event : Event) :
    Prog sqliteCalls Error IngestOutcome :=
  (onSqlite (.store (.setStatus o.issue.id .unresolved a.ambient.wall))).bind fun issue =>
    .ret (ingestOutcome o event (G.fingerprintNormalized a.input.normalized) (some issue))

inductive Inserted (G : Grouping) (a : Attempt) (o : UpsertOutcome) (event : Event) :
    List IngestStep → Prop
  | intro (b₁ a₁ b₂ a₂ : Store) :
    Inserted G a o event [upsertStep G a b₁ a₁ (.ok o), insertStep a b₂ a₂ o (.ok event)]

inductive Phase (G : Grouping) (a : Attempt) :
    List IngestStep → Prog sqliteCalls Error IngestOutcome → Prop
  | unstarted : Phase G a [] (a.prog G)
  | upsertFailed (b₁ a₁ : Store) (e : Error) :
    Phase G a [upsertStep G a b₁ a₁ (.error e)] (.fail e)
  | upserted (b₁ a₁ : Store) (o : UpsertOutcome) :
    Phase G a [upsertStep G a b₁ a₁ (.ok o)]
      (afterUpsert (sqliteIssues a.ambient) sqliteEvents
        (G.fingerprintNormalized a.input.normalized) a.input a.seenAt o)
  | insertFailed (b₁ a₁ b₂ a₂ : Store) (o : UpsertOutcome) (e : Error) :
    Phase G a [upsertStep G a b₁ a₁ (.ok o), insertStep a b₂ a₂ o (.error e)] (.fail e)
  | inserted {h : List IngestStep} {o : UpsertOutcome} {event : Event}
      (hi : Inserted G a o event h) :
    Phase G a h (afterInsert (sqliteIssues a.ambient) sqliteEvents
      (G.fingerprintNormalized a.input.normalized) a.seenAt o event)
  | countFailed {h : List IngestStep} {o : UpsertOutcome} {event : Event}
      (hi : Inserted G a o event h) {threshold : ℤ} {since : Timestamp}
      (hc : rateCheck o.issue a.seenAt = .count threshold since) (b₃ a₃ : Store) (e : Error) :
    Phase G a (h ++ [countStep b₃ a₃ o since (.error e)]) (.fail e)
  | below {h : List IngestStep} {o : UpsertOutcome} {event : Event}
      (hi : Inserted G a o event h) {threshold : ℤ} {since : Timestamp}
      (hc : rateCheck o.issue a.seenAt = .count threshold since) (b₃ a₃ : Store) {n : ℤ}
      (hn : n < threshold) :
    Phase G a (h ++ [countStep b₃ a₃ o since (.ok n)])
      (.ret (ingestOutcome o event (G.fingerprintNormalized a.input.normalized) none))
  | exceeded {h : List IngestStep} {o : UpsertOutcome} {event : Event}
      (hi : Inserted G a o event h) {threshold : ℤ} {since : Timestamp}
      (hc : rateCheck o.issue a.seenAt = .count threshold since) (b₃ a₃ : Store) {n : ℤ}
      (hn : threshold ≤ n) :
    Phase G a (h ++ [countStep b₃ a₃ o since (.ok n)]) (writeStatus G a o event)
  | writeFailed {h : List IngestStep} {o : UpsertOutcome} {event : Event}
      (hi : Inserted G a o event h) {threshold : ℤ} {since : Timestamp}
      (hc : rateCheck o.issue a.seenAt = .count threshold since) (b₃ a₃ : Store) {n : ℤ}
      (hn : threshold ≤ n) (b₄ a₄ : Store) (e : Error) :
    Phase G a (h ++ [countStep b₃ a₃ o since (.ok n), statusStep a b₄ a₄ o (.error e)]) (.fail e)
  | resurfaced {h : List IngestStep} {o : UpsertOutcome} {event : Event}
      (hi : Inserted G a o event h) {threshold : ℤ} {since : Timestamp}
      (hc : rateCheck o.issue a.seenAt = .count threshold since) (b₃ a₃ : Store) {n : ℤ}
      (hn : threshold ≤ n) (b₄ a₄ : Store) (issue : Issue) :
    Phase G a (h ++ [countStep b₃ a₃ o since (.ok n), statusStep a b₄ a₄ o (.ok issue)])
      (.ret (ingestOutcome o event (G.fingerprintNormalized a.input.normalized) (some issue)))

variable {G : Grouping} {a : Attempt} {o : UpsertOutcome} {event : Event}

theorem phase_of_afterInsert {h h' : List IngestStep} {q : Prog sqliteCalls Error IngestOutcome}
    (hi : Inserted G a o event h)
    (hp : (afterInsert (sqliteIssues a.ambient) sqliteEvents
      (G.fingerprintNormalized a.input.normalized) a.seenAt o event).Path h' q) :
    Phase G a (h ++ h') q := by
  have hin := Phase.inserted hi
  unfold afterInsert at hp hin
  cases hc : rateCheck o.issue a.seenAt with
  | skip =>
    rw [hc] at hp hin
    obtain ⟨rfl, rfl⟩ := hp.of_ret
    rwa [List.append_nil]
  | overflow =>
    rw [hc] at hp hin
    obtain ⟨rfl, rfl⟩ := hp.of_abort
    rwa [List.append_nil]
  | count threshold since =>
    rw [hc, resurfaceOn, Prog.bind_assoc] at hp hin
    rcases hp.of_ask_bind with ⟨rfl, rfl⟩ | ⟨b₃, e, a₃, rfl, rfl⟩ | ⟨b₃, n, a₃, h₃, rfl, hrest⟩
    · rwa [List.append_nil]
    · exact .countFailed hi hc b₃ a₃ e
    by_cases hn : n < threshold
    · rw [if_pos hn] at hrest
      obtain ⟨rfl, rfl⟩ := hrest.of_ret
      exact .below hi hc b₃ a₃ hn
    · rw [if_neg hn, Prog.bind_assoc] at hrest
      have hle := not_lt.mp hn
      rcases hrest.of_ask_bind with
        ⟨rfl, rfl⟩ | ⟨b₄, e, a₄, rfl, rfl⟩ | ⟨b₄, issue, a₄, h₄, rfl, htail⟩
      · exact .exceeded hi hc b₃ a₃ hle
      · exact .writeFailed hi hc b₃ a₃ hle b₄ a₄ e
      · obtain ⟨rfl, rfl⟩ := htail.of_ret
        exact .resurfaced hi hc b₃ a₃ hle b₄ a₄ issue

theorem phase_of_path {h : List IngestStep} {q : Prog sqliteCalls Error IngestOutcome}
    (hp : (a.prog G).Path h q) : Phase G a h q := by
  have hstart := Phase.unstarted (G := G) (a := a)
  unfold Attempt.prog sqliteIngest at hp hstart
  rw [ingestNormalized_eq] at hp hstart
  rcases hp.of_ask_bind with ⟨rfl, rfl⟩ | ⟨b₁, e, a₁, rfl, rfl⟩ | ⟨b₁, o, a₁, h₁, rfl, hrest⟩
  · exact hstart
  · exact .upsertFailed b₁ a₁ e
  rcases hrest.of_ask_bind with ⟨rfl, rfl⟩ | ⟨b₂, e, a₂, rfl, rfl⟩ | ⟨b₂, event, a₂, h₂, rfl, htail⟩
  · exact .upserted b₁ a₁ o
  · exact .insertFailed b₁ a₁ b₂ a₂ o e
  · exact phase_of_afterInsert (.intro b₁ a₁ b₂ a₂) htail

section Sound

variable {before after : Store} {e : Error}

theorem upsertStep_ok (h : (upsertStep G a before after (.ok o)).Sound sqliteDb) :
    upsertOnce sqlite (a.input.upsert G a.seenAt) a.ambient.draws before = .ok (o, after) := by
  obtain ⟨_ | err, h⟩ := h
  · have hstep : commit (upsertOnce sqlite (a.input.upsert G a.seenAt) a.ambient.draws before)
      before = (.ok o, after) := h
    cases hu : upsertOnce sqlite (a.input.upsert G a.seenAt) a.ambient.draws before with
    | error e =>
      rw [hu] at hstep
      cases hstep
    | ok r =>
      rw [hu] at hstep
      cases hstep
      rfl
  · cases h

theorem commit_error_state {α : Type} {r : Except Error (α × Store)} {s s' : Store} {e : Error}
    (h : commit r s = (.error e, s')) : s' = s := by
  cases r with
  | error e' => cases h; rfl
  | ok r => cases h

theorem upsertStep_error (h : (upsertStep G a before after (.error e)).Sound sqliteDb) :
    after = before := by
  obtain ⟨_ | err, h⟩ := h
  · exact commit_error_state h
  · cases h; rfl

theorem insertStep_issues {r : Except Error Event}
    (h : (insertStep a before after o r).Sound sqliteDb) : after.issues = before.issues := by
  obtain ⟨_ | err, h⟩ := h
  · have hstep : commit (insertEvent sqlite (a.input.newEvent o.issue.id a.seenAt) before) before =
      (r, after) := h
    unfold insertEvent at hstep
    split at hstep <;> cases hstep <;> rfl
  · have hafter : before = after := congrArg Prod.snd h
    rw [hafter]

theorem countStep_state {since : Timestamp} {r : Except Error ℤ}
    (h : (countStep before after o since r).Sound sqliteDb) : after = before := by
  obtain ⟨_ | err, h⟩ := h
  · exact (congrArg Prod.snd h).symm
  · exact (congrArg Prod.snd h).symm

theorem statusStep_cases {r : Except Error Issue}
    (h : (statusStep a before after o r).Sound sqliteDb) :
    setStatus sqlite o.issue.id .unresolved a.ambient.wall before = (r, after) ∨
      after = before ∧ ∃ e, r = .error e := by
  obtain ⟨_ | err, h⟩ := h
  · exact .inl h
  · exact .inr ⟨(congrArg Prod.snd h).symm, err, (congrArg Prod.fst h).symm⟩

end Sound

end Soika
