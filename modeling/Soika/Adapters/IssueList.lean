import Soika.Adapters.Pruning
import Soika.Library.Like
import Soika.Library.Paging

/-! # The issue list

One statement, built from the filters that are set. The two databases differ in how they search for a
text and in how they compare instants; both leave the order of rows with equal sort columns open.
-/

namespace Soika

inductive IssueSort where
  | lastSeen
  | eventCount
  deriving DecidableEq

/-- Filter for listing issues. -/
structure IssueFilter where
  status : Option IssueStatus
  level : Option String
  environment : Option String
  release : Option String
  query : Option String
  limit : Option ℤ
  offset : Option ℤ
  sort : IssueSort
  deriving DecidableEq

/-- `LIKE` of SQLite and `ILIKE` fold the case of ASCII letters. -/
def sameLetter (a c : Char) : Bool := a.toLower = c.toLower

/-- A pattern of `LIKE` in SQLite, which has no escape character unless one is given. -/
def likeTokens (pattern : List Char) : List (Like.Token Char) :=
  pattern.map fun c => if c = '%' then .many else if c = '_' then .one else .lit c

/-- A pattern of `ILIKE` in PostgreSQL, where a backslash makes the next character a letter; none for
a pattern that ends with the escape character. -/
def ilikeTokens : (escaped : Bool) → List Char → Option (List (Like.Token Char))
  | false, [] => some []
  | true, [] => none
  | true, c :: cs => (ilikeTokens false cs).map (.lit c :: ·)
  | false, c :: cs =>
    if c = '\\' then ilikeTokens true cs
    else if c = '%' then (ilikeTokens false cs).map (.many :: ·)
    else if c = '_' then (ilikeTokens false cs).map (.one :: ·)
    else (ilikeTokens false cs).map (.lit c :: ·)

def nul : Char := Char.ofNat 0

/-- What `LIKE` reads of a text in SQLite: it ends with the first NUL. -/
def untilNul (text : List Char) : List Char := text.takeWhile (· ≠ nul)

def byteLength (text : List Char) : ℕ := (text.map Char.utf8Size).sum

/-- `SQLITE_MAX_LIKE_PATTERN_LENGTH`, in bytes. -/
def maxPatternLength : ℕ := 50000

/-- The two databases. -/
inductive Engine where
  | sqlite
  | postgres
  deriving DecidableEq

namespace Engine

def backend : Engine → Backend
  | sqlite => Soika.sqlite
  | postgres => Soika.postgres

theorem ordered (E : Engine) : E.backend.Ordered := by
  cases E with
  | sqlite => exact sqlite_ordered
  | postgres => exact postgres_ordered

/-- `LIKE ?` and `ILIKE $n`. -/
def like (E : Engine) (pattern : List Char) : Except Error (List Char → Bool) :=
  match E with
  | sqlite =>
    if maxPatternLength < byteLength pattern then
      .error (.db (.sqlite (some 1) "LIKE or GLOB pattern too complex"))
    else .ok fun text => Like.accepts sameLetter (likeTokens (untilNul pattern)) (untilNul text)
  | postgres =>
    match ilikeTokens false pattern with
    | some tokens => .ok (Like.accepts sameLetter tokens)
    | none => .error (.db (.postgres "22025"))

end Engine

namespace IssueFilter

/-- `column = ?` where a value is set; `NULL` is equal to nothing. -/
def columnIs (value column : Option String) : Bool := value.all fun v => column = some v

def exactMatch (filter : IssueFilter) (i : Issue) : Bool :=
  filter.status.all (fun status => i.status = status) && columnIs filter.level i.level &&
    columnIs filter.environment i.environment && columnIs filter.release i.release

def texts (filter : IssueFilter) : List String :=
  [filter.level, filter.environment, filter.release, filter.query].reduceOption

def pattern (query : String) : List Char := '%' :: (query.toList ++ ['%'])

/-- `title LIKE ? OR culprit LIKE ?`. -/
def textMatch (test : List Char → Bool) (i : Issue) : Bool :=
  test i.title.toList || i.culprit.any fun culprit => test culprit.toList

/-- `limit.unwrap_or(50).clamp(1, 500)`. -/
def pageSize (filter : IssueFilter) : ℕ := (max 1 (min (filter.limit.getD 50) 500)).toNat

/-- `offset.unwrap_or(0).max(0)`. -/
def pageStart (filter : IssueFilter) : ℕ := (max (filter.offset.getD 0) 0).toNat

end IssueFilter

/-- `ORDER BY`: whether a row may come before another. -/
def IssueSort.orderBy (B : Backend) : IssueSort → Issue → Issue → Bool
  | lastSeen, a, b => B.le b.lastSeen a.lastSeen
  | eventCount, a, b =>
    b.eventCount < a.eventCount || (a.eventCount = b.eventCount && B.le b.lastSeen a.lastSeen)

namespace Engine

/-- PostgreSQL takes no text with a NUL as a parameter. -/
def bindTexts (E : Engine) (filter : IssueFilter) : Except Error Unit :=
  match E with
  | sqlite => .ok ()
  | postgres =>
    if filter.texts.any fun text => nul ∈ text.toList then .error (.db (.postgres "22021")) else .ok ()

/-- The rows of the `WHERE` clause. A pattern is looked at when a row is tested. -/
def selected (E : Engine) (s : Store) (projectId : Id) (filter : IssueFilter) :
    Except Error (List Issue) := do
  E.bindTexts filter
  let rows := s.issues.filter fun i => i.projectId = projectId && filter.exactMatch i
  match filter.query with
  | none => return rows
  | some query =>
    if rows.isEmpty then return []
    else do
      let test ← E.like (IssueFilter.pattern query)
      return rows.filter (IssueFilter.textMatch test)

/-- The issue list. The rows come as they are arranged, but for what the sort columns say. -/
def list (E : Engine) (arrange : List Issue → List Issue) (s : Store) (projectId : Id)
    (filter : IssueFilter) : Except Error (List Issue) := do
  let rows ← E.selected s projectId filter
  let sorted := (arrange rows).mergeSort (filter.sort.orderBy E.backend)
  ((sorted.drop filter.pageStart).take filter.pageSize).mapM E.backend.rowToIssue

end Engine

def Issue.once (id : Id) (name title : String) : Issue where
  id := id
  shortId := name
  projectId := 0
  fingerprint := name
  title := title
  culprit := none
  level := none
  environment := none
  release := none
  status := .unresolved
  mutedAt := none
  mutedUntil := none
  muteThreshold := none
  muteWindowSeconds := none
  firstSeen := ⟨0, by decide⟩
  lastSeen := ⟨0, by decide⟩
  eventCount := 1
  createdAt := ⟨0, by decide⟩
  updatedAt := ⟨0, by decide⟩

def Store.ofIssues (issues : List Issue) (nextId : Id) : Store where
  projects := [⟨0, 1000, 0, false⟩]
  issues := issues
  events := []
  nextId := nextId

def IssueFilter.ofQuery (query : Option String) : IssueFilter where
  status := none
  level := none
  environment := none
  release := none
  query := query
  limit := none
  offset := none
  sort := .lastSeen

open Ranking

theorem IssueSort.totalPreorder {B : Backend} (hB : B.Ordered) (sort : IssueSort) :
    TotalPreorder (sort.orderBy B) := by
  have hiff : ∀ {a b : Issue}, orderBy B .eventCount a b = true ↔
      b.eventCount ≤ a.eventCount ∧
        (a.eventCount = b.eventCount → B.le b.lastSeen a.lastSeen = true) := by
    intro a b
    simp only [orderBy, Bool.or_eq_true, Bool.and_eq_true, decide_eq_true_eq]
    constructor
    · rintro (hlt | ⟨heq, hle⟩)
      · exact ⟨hlt.le, fun heq => absurd heq hlt.ne'⟩
      · exact ⟨heq.ge, fun _ => hle⟩
    · rintro ⟨hle, himp⟩
      rcases hle.lt_or_eq with hlt | heq
      · exact .inl hlt
      · exact .inr ⟨heq.symm, himp heq.symm⟩
  cases sort with
  | lastSeen => exact ⟨fun a b c hab hbc => hB.trans _ _ _ hbc hab, fun a b => by
      simpa [orderBy, or_comm] using hB.total a.lastSeen b.lastSeen⟩
  | eventCount =>
    constructor
    · intro a b c hab hbc
      rw [hiff] at *
      refine ⟨hbc.1.trans hab.1, fun hac => ?_⟩
      have hab' : a.eventCount = b.eventCount := le_antisymm (hac ▸ hbc.1) hab.1
      exact hB.trans _ _ _ (hbc.2 (hab' ▸ hac)) (hab.2 hab')
    · intro a b
      rw [Bool.or_eq_true, hiff, hiff]
      have htime := hB.total b.lastSeen a.lastSeen
      rcases lt_trichotomy a.eventCount b.eventCount with hlt | heq | hgt
      · exact .inr ⟨hlt.le, fun heq => absurd heq hlt.ne'⟩
      · rcases htime with hle | hle
        · exact .inl ⟨heq.ge, fun _ => hle⟩
        · exact .inr ⟨heq.le, fun _ => hle⟩
      · exact .inl ⟨hgt.le, fun heq => absurd heq hgt.ne'⟩

end Soika
