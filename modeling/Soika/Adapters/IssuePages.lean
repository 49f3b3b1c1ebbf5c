import Soika.Adapters.IssueList

/-! # The pages of the issue list

Requests with offsets that advance by the page size list every issue once when the order of the issues
is open only within the pages. Where issues with equal sort columns stand on both sides of the end of
a page, one of them may be listed twice and another not at all.
-/

namespace Soika

open Ranking

theorem ilikeTokens_ends (escaped : Bool) (query : List Char) :
    ∃ tokens, ilikeTokens escaped (query ++ ['%']) = some tokens := by
  induction query generalizing escaped with
  | nil => cases escaped <;> exact ⟨_, rfl⟩
  | cons c query ih =>
    obtain ⟨tokens, htokens⟩ := ih false
    obtain ⟨tokens', htokens'⟩ := ih true
    rw [List.cons_append]
    cases escaped with
    | true => exact ⟨.lit c :: tokens, by rw [ilikeTokens, htokens]; rfl⟩
    | false =>
      rw [ilikeTokens]
      split_ifs
      · exact ⟨tokens', htokens'⟩
      · exact ⟨_, by rw [htokens]; rfl⟩
      · exact ⟨_, by rw [htokens]; rfl⟩
      · exact ⟨_, by rw [htokens]; rfl⟩

theorem Engine.exists_ilike (query : String) :
    ∃ test, Engine.postgres.like (IssueFilter.pattern query) = .ok test := by
  obtain ⟨tokens, htokens⟩ := ilikeTokens_ends false query.toList
  have hall : ilikeTokens false (IssueFilter.pattern query) = some (.many :: tokens) := by
    rw [IssueFilter.pattern, ilikeTokens, if_neg (by decide), if_pos rfl, htokens]
    rfl
  exact ⟨_, by rw [Engine.like, hall]⟩

namespace Engine

variable {s : Store} {projectId : Id} {filter : IssueFilter} {rows : List Issue}

abbrev candidates (s : Store) (projectId : Id) (filter : IssueFilter) : List Issue :=
  s.issues.filter fun i => i.projectId = projectId && filter.exactMatch i

/-- The database takes the statement: the parameters in PostgreSQL, and in SQLite the length of the
pattern, if there is a row to test. -/
def Accepts (E : Engine) (s : Store) (projectId : Id) (filter : IssueFilter) : Prop :=
  match E with
  | sqlite => candidates s projectId filter = [] ∨
      ∀ query ∈ filter.query, byteLength (IssueFilter.pattern query) ≤ maxPatternLength
  | postgres => ∀ text ∈ filter.texts, nul ∉ text.toList

theorem bindTexts_eq_ok (E : Engine) (filter : IssueFilter) :
    E.bindTexts filter = .ok () ↔ E = .postgres → ∀ text ∈ filter.texts, nul ∉ text.toList := by
  cases E with
  | sqlite => exact iff_of_true rfl fun h => by cases h
  | postgres =>
    rw [bindTexts]
    split_ifs with hnul
    · simp at hnul
      simpa using hnul
    · simp at hnul
      simpa using hnul

theorem selected_of_bindTexts {E : Engine} (h : E.bindTexts filter = .ok ()) :
    E.selected s projectId filter = match filter.query with
      | none => .ok (candidates s projectId filter)
      | some query => if (candidates s projectId filter).isEmpty then .ok []
        else (E.like (IssueFilter.pattern query)).map fun test =>
          (candidates s projectId filter).filter (IssueFilter.textMatch test) := by
  unfold selected
  rw [h]
  cases filter.query with
  | none => rfl
  | some query =>
    change ite _ _ _ = ite _ _ _
    split_ifs
    · rfl
    · cases E.like (IssueFilter.pattern query) <;> rfl

theorem selected_sub (E : Engine) (h : E.selected s projectId filter = .ok rows) :
    ∃ p : Issue → Bool, rows = (candidates s projectId filter).filter p := by
  obtain ⟨⟨⟩, hbind, -⟩ := bind_eq_ok.mp h
  rw [selected_of_bindTexts hbind] at h
  cases hquery : filter.query with
  | none =>
    rw [hquery] at h
    exact ⟨fun _ => true, by simpa using (Except.ok.inj h).symm⟩
  | some query =>
    simp only [hquery] at h
    split_ifs at h with hempty
    · exact ⟨fun _ => false, by simpa using (Except.ok.inj h).symm⟩
    · cases hlike : E.like (IssueFilter.pattern query) with
      | error e =>
        rw [hlike] at h
        cases h
      | ok test =>
        rw [hlike] at h
        exact ⟨_, (Except.ok.inj h).symm⟩

theorem exists_selected_iff (E : Engine) (s : Store) (projectId : Id) (filter : IssueFilter) :
    (∃ rows, E.selected s projectId filter = .ok rows) ↔ E.Accepts s projectId filter := by
  cases E with
  | sqlite =>
    rw [selected_of_bindTexts rfl, Accepts]
    cases filter.query with
    | none => exact iff_of_true ⟨_, rfl⟩ (.inr fun query hquery => by cases hquery)
    | some query =>
      simp only [Option.mem_def, Option.some.injEq, forall_eq', List.isEmpty_iff]
      split_ifs with hempty
      · exact iff_of_true ⟨_, rfl⟩ (.inl hempty)
      · rw [or_iff_right hempty, ← not_lt, like]
        split_ifs with hlong
        · refine iff_of_false ?_ (not_not_intro hlong)
          rintro ⟨_, h⟩
          cases h
        · exact iff_of_true ⟨_, rfl⟩ hlong
  | postgres =>
    constructor
    · rintro ⟨rows, h⟩
      obtain ⟨⟨⟩, hbind, -⟩ := bind_eq_ok.mp h
      exact (bindTexts_eq_ok _ filter).mp hbind rfl
    · intro htexts
      rw [selected_of_bindTexts ((bindTexts_eq_ok _ filter).mpr fun _ => htexts)]
      cases filter.query with
      | none => exact ⟨_, rfl⟩
      | some query =>
        obtain ⟨test, htest⟩ := exists_ilike query
        simp only [htest]
        split_ifs <;> exact ⟨_, rfl⟩

end Engine

theorem Engine.selected_nodup {E : Engine} {s : Store} (hs : s.Consistent) {projectId : Id}
    {filter : IssueFilter} {rows : List Issue} (h : E.selected s projectId filter = .ok rows) :
    rows.Nodup := by
  obtain ⟨p, rfl⟩ := E.selected_sub h
  exact ((List.Nodup.of_map _ hs.issueIds).filter _).filter p

namespace Engine

variable (E : Engine)

def pageFilter (filter : IssueFilter) (size page : ℕ) : IssueFilter :=
  { filter with limit := some size, offset := some (page * size : ℕ) }

def listPages (arrange : ℕ → List Issue → List Issue) (s : Store) (projectId : Id)
    (filter : IssueFilter) (size : ℕ) : ℕ → Except Error (List Issue)
  | 0 => .ok []
  | count + 1 => do
    let front ← listPages arrange s projectId filter size count
    let page ← E.list (arrange count) s projectId (pageFilter filter size count)
    return front ++ page

variable {E}

theorem mapM_rowToIssue_eq_ok {B : Backend} {rows out : List Issue} :
    rows.mapM B.rowToIssue = .ok out ↔ out = rows ∧ ∀ i ∈ rows, B.Readable i := by
  induction rows generalizing out with
  | nil => simp [pure, Except.pure, eq_comm]
  | cons row rows ih =>
    rw [List.mapM_cons, bind_eq_ok]
    simp only [Backend.rowToIssue_eq_ok, bind_eq_ok, ih, pure, Except.pure, Except.ok.injEq,
      List.forall_mem_cons]
    constructor
    · rintro ⟨_, ⟨rfl, hrow⟩, _, ⟨rfl, hrows⟩, rfl⟩
      exact ⟨rfl, hrow, hrows⟩
    · rintro ⟨rfl, hrow, hrows⟩
      exact ⟨row, ⟨rfl, hrow⟩, rows, ⟨rfl, hrows⟩, rfl⟩

theorem pageSize_pageFilter {filter : IssueFilter} {size : ℕ} (hpos : 1 ≤ size) (hmax : size ≤ 500)
    (page : ℕ) : (pageFilter filter size page).pageSize = size := by
  simp only [IssueFilter.pageSize, pageFilter, Option.getD_some]
  omega

theorem pageStart_pageFilter (filter : IssueFilter) (size page : ℕ) :
    (pageFilter filter size page).pageStart = page * size := by
  simp only [IssueFilter.pageStart, pageFilter, Option.getD_some]
  omega

section

variable {s : Store} {projectId : Id} {filter : IssueFilter} {size : ℕ} {rows : List Issue}
  {arrange : ℕ → List Issue → List Issue}

def listing (E : Engine) (filter : IssueFilter) (arrange : ℕ → List Issue → List Issue)
    (rows : List Issue) (page : ℕ) : List Issue :=
  (arrange page rows).mergeSort (filter.sort.orderBy E.backend)

theorem list_eq_ok (hpos : 1 ≤ size) (hmax : size ≤ 500)
    (hrows : E.selected s projectId filter = .ok rows) {page : ℕ} {out : List Issue} :
    E.list (arrange page) s projectId (pageFilter filter size page) = .ok out ↔
      out = ((E.listing filter arrange rows page).drop (page * size)).take size ∧
        ∀ i ∈ ((E.listing filter arrange rows page).drop (page * size)).take size,
          E.backend.Readable i := by
  have hsame : E.selected s projectId (pageFilter filter size page) = .ok rows := hrows
  rw [list, hsame]
  change List.mapM _ _ = _ ↔ _
  rw [pageSize_pageFilter hpos hmax, pageStart_pageFilter]
  exact mapM_rowToIssue_eq_ok

theorem listPages_eq_ok (hpos : 1 ≤ size) (hmax : size ≤ 500)
    (hrows : E.selected s projectId filter = .ok rows) {count : ℕ} {out : List Issue} :
    E.listPages arrange s projectId filter size count = .ok out ↔
      out = pages size (E.listing filter arrange rows) count ∧
        ∀ i ∈ pages size (E.listing filter arrange rows) count, E.backend.Readable i := by
  induction count generalizing out with
  | zero => simp [listPages, eq_comm]
  | succ count ih =>
    rw [listPages, bind_eq_ok]
    simp only [bind_eq_ok, ih, list_eq_ok hpos hmax hrows, pure, Except.pure, Except.ok.injEq,
      pages_succ, List.forall_mem_append]
    constructor
    · rintro ⟨_, ⟨rfl, hfront⟩, _, ⟨rfl, hpage⟩, rfl⟩
      exact ⟨rfl, hfront, hpage⟩
    · rintro ⟨rfl, hfront, hpage⟩
      exact ⟨_, ⟨rfl, hfront⟩, _, ⟨rfl, hpage⟩, rfl⟩

theorem listing_of_arranged (harrange : ∀ page, (arrange page rows).Perm rows) (page : ℕ) :
    Listing (filter.sort.orderBy E.backend) rows (E.listing filter arrange rows page) := by
  have hle := filter.sort.totalPreorder E.ordered
  exact ⟨(List.mergeSort_perm _ _).trans (harrange page),
    List.pairwise_mergeSort hle.trans hle.total _⟩

theorem listing_arranged {listings : ℕ → List Issue}
    (h : ∀ page, Listing (filter.sort.orderBy E.backend) rows (listings page)) :
    E.listing filter (fun page _ => listings page) rows = listings := by
  funext page
  exact List.mergeSort_of_pairwise (h page).sorted

/-- The requests list every issue once exactly when they can all be read, and none that the order
leaves equal stand on both sides of the end of a page. -/
theorem listPages_perm_iff (hs : s.Consistent) (hpos : 1 ≤ size) (hmax : size ≤ 500)
    (hrows : E.selected s projectId filter = .ok rows) :
    (∀ arrange : ℕ → List Issue → List Issue, (∀ page, (arrange page rows).Perm rows) →
      ∀ count, rows.length ≤ count * size →
        ∃ out, E.listPages arrange s projectId filter size count = .ok out ∧ out.Perm rows) ↔
      (∀ i ∈ rows, E.backend.Readable i) ∧
        ∀ i ∈ rows, ∀ page, ¬ Straddles (filter.sort.orderBy E.backend) rows i (page * size) := by
  have hle := filter.sort.totalPreorder E.ordered
  have hiff := pages_perm_iff hle (selected_nodup hs hrows) (Nat.lt_of_lt_of_le Nat.zero_lt_one hpos)
  simp only [listPages_eq_ok hpos hmax hrows]
  constructor
  · intro h
    have hpages : ∀ listings : ℕ → List Issue,
        (∀ page, Listing (filter.sort.orderBy E.backend) rows (listings page)) →
        ∀ count, rows.length ≤ count * size → (pages size listings count).Perm rows ∧
          ∀ i ∈ pages size listings count, E.backend.Readable i := by
      intro listings hlistings count hcount
      obtain ⟨out, ⟨rfl, hread⟩, hperm⟩ :=
        h (fun page _ => listings page) (fun page => (hlistings page).perm) count hcount
      rw [listing_arranged hlistings] at hread hperm
      exact ⟨hperm, hread⟩
    constructor
    · intro i hi
      obtain ⟨hperm, hread⟩ := hpages (fun _ => rows.mergeSort (filter.sort.orderBy E.backend))
        (fun _ => listing_mergeSort hle rows) rows.length (Nat.le_mul_of_pos_right _ hpos)
      exact hread i (hperm.mem_iff.mpr hi)
    · exact hiff.mp fun listings hlistings count hcount => (hpages listings hlistings count hcount).1
  · rintro ⟨hread, hsize⟩ arrange harrange count hcount
    have hperm := hiff.mpr hsize (E.listing filter arrange rows) (listing_of_arranged harrange) count
      hcount
    exact ⟨_, ⟨rfl, fun i hi => hread i (hperm.mem_iff.mp hi)⟩, hperm⟩

end

/-- The requests for the pages list every selected issue once, however the database arranges the rows of
each of them. -/
def ListsAll (E : Engine) (s : Store) (projectId : Id) (filter : IssueFilter) (size : ℕ) : Prop :=
  ∃ rows, E.selected s projectId filter = .ok rows ∧
    ∀ arrange : ℕ → List Issue → List Issue, (∀ page, (arrange page rows).Perm rows) →
      ∀ count, rows.length ≤ count * size →
        ∃ out, E.listPages arrange s projectId filter size count = .ok out ∧ out.Perm rows

/--
Pages of the issue list, in either database: every selected issue is listed once, if and only if the
database takes the statement, every selected row can be read, and no issues with equal sort columns
stand on both sides of the end of a page.
-/
theorem paging_complete_iff (E : Engine) {s : Store} (hs : s.Consistent) (projectId : Id)
    (filter : IssueFilter) {size : ℕ} (hpos : 1 ≤ size) (hmax : size ≤ 500) :
    E.ListsAll s projectId filter size ↔ E.Accepts s projectId filter ∧
      ∀ rows, E.selected s projectId filter = .ok rows → (∀ i ∈ rows, E.backend.Readable i) ∧
        ∀ i ∈ rows, ∀ page,
          ¬ Straddles (filter.sort.orderBy E.backend) rows i (page * size) := by
  rw [← exists_selected_iff]
  constructor
  · rintro ⟨rows, hrows, hall⟩
    refine ⟨⟨rows, hrows⟩, fun rows' hrows' => ?_⟩
    obtain rfl := Except.ok.inj (hrows.symm.trans hrows')
    exact (listPages_perm_iff hs hpos hmax hrows).mp hall
  · rintro ⟨⟨rows, hrows⟩, hall⟩
    exact ⟨rows, hrows, (listPages_perm_iff hs hpos hmax hrows).mpr (hall rows hrows)⟩

def twoSeen : Store := .ofIssues [.once 1 "issue1" "first", .once 2 "issue2" "second"] 3

theorem twoSeen_consistent : twoSeen.Consistent := by
  constructor <;> simp [twoSeen, Store.ofIssues, Issue.once, Table.UniqueOn, Store.groupOf]

theorem paging_complete_twoSeen : Engine.sqlite.ListsAll twoSeen 0 (.ofQuery none) 2 ↔
    Engine.sqlite.Accepts twoSeen 0 (.ofQuery none) ∧
      ∀ rows, Engine.sqlite.selected twoSeen 0 (.ofQuery none) = .ok rows →
        (∀ i ∈ rows, Engine.sqlite.backend.Readable i) ∧ ∀ i ∈ rows, ∀ page,
          ¬ Straddles ((IssueFilter.ofQuery none).sort.orderBy Engine.sqlite.backend) rows i (page * 2) :=
  paging_complete_iff .sqlite twoSeen_consistent 0 (.ofQuery none) (by decide) (by decide)

/-- The second request gets the rows in another order than the first. -/
def reversedLater (page : ℕ) (rows : List Issue) : List Issue := if page = 0 then rows else rows.reverse

/-- The first issue comes twice, and the second not at all. -/
theorem paging_repeats : (∀ page rows, (reversedLater page rows).Perm rows) ∧
    Engine.sqlite.listPages reversedLater twoSeen 0 (.ofQuery none) 1 2 =
        .ok [.once 1 "issue1" "first", .once 1 "issue1" "first"] ∧
      Engine.sqlite.selected twoSeen 0 (.ofQuery none) =
        .ok [.once 1 "issue1" "first", .once 2 "issue2" "second"] := by
  have hrows : Engine.sqlite.selected twoSeen 0 (.ofQuery none) = .ok twoSeen.issues := by
    decide +kernel
  have hlisting : Engine.sqlite.listing (.ofQuery none) reversedLater twoSeen.issues =
      fun page => reversedLater page twoSeen.issues := by
    funext page
    apply List.mergeSort_of_pairwise
    unfold reversedLater
    split <;> decide +kernel
  refine ⟨fun page rows => ?_, (listPages_eq_ok (by decide) (by decide) hrows).mpr ?_, hrows⟩
  · unfold reversedLater
    split
    · exact List.Perm.refl rows
    · exact rows.reverse_perm
  · rw [hlisting]
    constructor
    · decide +kernel
    · unfold Backend.Readable
      decide +kernel

end Engine

end Soika
