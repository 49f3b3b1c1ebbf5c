import Mathlib.Data.List.ReduceOption
import Mathlib.Data.List.TakeWhile
import Soika.Adapters.IssuePages

/-! # What a search finds

The query is put between two wildcards as it is. Where it has no wildcards or backslashes of its own,
no NUL and not too many bytes, both databases find the issues that contain it; each of these finds
others, or an error, in one of them.
-/

namespace Soika

open Like

/-- Some part of the text is the query, up to the case of ASCII letters. -/
def containsQuery (query text : List Char) : Bool :=
  query.map Char.toLower <:+: text.map Char.toLower

/-- What the filter asks for: its equalities, and the query in the title or the culprit. -/
def IssueFilter.Wanted (projectId : Id) (filter : IssueFilter) (i : Issue) : Bool :=
  i.projectId = projectId && filter.exactMatch i &&
    filter.query.all fun query => textMatch (containsQuery query.toList) i

/-- The part of a text that the database searches: in SQLite, up to its first NUL. -/
def Engine.searched : Engine → List Char → List Char
  | sqlite, text => untilNul text
  | postgres, text => text

/-- The query stands where the database searches. -/
def Engine.Sees (E : Engine) (filter : IssueFilter) (i : Issue) : Bool :=
  filter.query.all fun query =>
    IssueFilter.textMatch (fun text => containsQuery query.toList (E.searched text)) i

/-- The characters that a pattern does not take as letters, in one database or the other. -/
def IsMeta (c : Char) : Prop := c = '%' ∨ c = '_' ∨ c = '\\'

instance (c : Char) : Decidable (IsMeta c) := inferInstanceAs (Decidable (_ ∨ _))

theorem sameLetter_refl (c : Char) : sameLetter c c = true := by simp [sameLetter]

theorem forall₂_sameLetter {q part : List Char} :
    List.Forall₂ (fun a c => sameLetter a c = true) q part ↔
      q.map Char.toLower = part.map Char.toLower := by
  simp only [sameLetter, decide_eq_true_eq]
  induction q generalizing part with
  | nil => cases part <;> simp
  | cons a q ih =>
    cases part with
    | nil => simp
    | cons c part => simp [ih]

theorem contains_iff {query text : List Char} :
    Contains sameLetter query text ↔ containsQuery query text = true := by
  rw [containsQuery, decide_eq_true_eq]
  constructor
  · rintro ⟨before, part, after, rfl, hpart⟩
    rw [forall₂_sameLetter] at hpart
    exact ⟨before.map Char.toLower, after.map Char.toLower, by simp [hpart]⟩
  · rintro ⟨before, after, h⟩
    obtain ⟨front, back, rfl, hfront, -⟩ := List.map_eq_append_iff.mp h.symm
    obtain ⟨front, part, rfl, -, hpart⟩ := List.map_eq_append_iff.mp hfront
    exact ⟨front, part, back, rfl, forall₂_sameLetter.mpr hpart.symm⟩

section Plain

variable {query : List Char}

theorem likeTokens_plain (h : ∀ c ∈ query, ¬ IsMeta c) :
    likeTokens ('%' :: (query ++ ['%'])) = .many :: (query.map .lit ++ [.many]) := by
  have hlits : likeTokens query = query.map .lit := by
    refine List.map_congr_left fun c hc => ?_
    have := h c hc
    unfold IsMeta at this
    rw [if_neg (by tauto), if_neg (by tauto)]
  rw [likeTokens] at hlits
  simp [likeTokens, hlits]

theorem ilikeTokens_plain (h : ∀ c ∈ query, ¬ IsMeta c) :
    ilikeTokens false ('%' :: (query ++ ['%'])) = some (.many :: (query.map .lit ++ [.many])) := by
  have hlits : ilikeTokens false (query ++ ['%']) = some (query.map .lit ++ [.many]) := by
    induction query with
    | nil => rfl
    | cons c query ih =>
      obtain ⟨hc, hquery⟩ := List.forall_mem_cons.mp h
      unfold IsMeta at hc
      rw [List.cons_append, ilikeTokens, if_neg (by tauto), if_neg (by tauto), if_neg (by tauto),
        ih hquery]
      rfl
  rw [ilikeTokens, if_neg (by decide), if_pos rfl, hlits]
  rfl

theorem untilNul_of_not_mem {text : List Char} (h : nul ∉ text) : untilNul text = text := by
  rw [untilNul, List.takeWhile_eq_self_iff]
  exact fun c hc => decide_eq_true fun heq : c = nul => h (heq ▸ hc)

theorem nul_not_mem_pattern {query : String} (h : nul ∉ query.toList) :
    nul ∉ IssueFilter.pattern query := by
  simp only [IssueFilter.pattern, List.mem_cons, List.mem_append, List.not_mem_nil, or_false, not_or]
  exact ⟨by decide, h, by decide⟩

/-- Both databases search for a query without metacharacters as for a part of the text. -/
theorem like_plain (E : Engine) {query : String} (h : ∀ c ∈ query.toList, ¬ IsMeta c)
    (hnul : nul ∉ query.toList) (hlength : byteLength (IssueFilter.pattern query) ≤ maxPatternLength) :
    ∃ test, E.like (IssueFilter.pattern query) = .ok test ∧
      ∀ text, test text = containsQuery query.toList (E.searched text) := by
  have hsame : ∀ text, accepts sameLetter (.many :: (query.toList.map .lit ++ [.many])) text =
      containsQuery query.toList text := by
    intro text
    rw [Bool.eq_iff_iff, accepts_contains, contains_iff]
  cases E with
  | sqlite =>
    refine ⟨_, if_neg (Nat.not_lt.mpr hlength), fun text => ?_⟩
    rw [untilNul_of_not_mem (nul_not_mem_pattern hnul), IssueFilter.pattern, likeTokens_plain h, hsame]
    rfl
  | postgres =>
    refine ⟨_, ?_, hsame⟩
    rw [Engine.like, IssueFilter.pattern, ilikeTokens_plain h]

end Plain

theorem nul_not_mem_sample {query : List Char} (h : nul ∉ query) :
    nul ∉ (likeTokens query).map (Token.sample 'x') := by
  intro hmem
  rw [likeTokens, List.map_map] at hmem
  obtain ⟨c, hc, hsample⟩ := List.mem_map.mp hmem
  rw [Function.comp_apply] at hsample
  split_ifs at hsample with hpercent hunderscore
  · exact absurd hsample (by decide)
  · exact absurd hsample (by decide)
  · exact h ((hsample : c = nul) ▸ hc)

/-- SQLite: a text with other letters for the wildcards is found, though it does not contain them. -/
theorem like_wildcard {query : String} (h : '%' ∈ query.toList ∨ '_' ∈ query.toList)
    (hnul : nul ∉ query.toList) (hlength : byteLength (IssueFilter.pattern query) ≤ maxPatternLength) :
    ∃ test text, Engine.sqlite.like (IssueFilter.pattern query) = .ok test ∧ nul ∉ text ∧
      test text = true ∧ containsQuery query.toList text = false := by
  have hsample := nul_not_mem_sample hnul
  refine ⟨_, (likeTokens query.toList).map (Token.sample 'x'), if_neg (Nat.not_lt.mpr hlength), hsample,
    ?_, ?_⟩
  · rw [untilNul_of_not_mem (nul_not_mem_pattern hnul), untilNul_of_not_mem hsample]
    have hsplit : likeTokens (IssueFilter.pattern query) =
        .many :: (likeTokens query.toList ++ [.many]) := by simp [IssueFilter.pattern, likeTokens]
    rw [hsplit]
    have hmiddle := accepts_append (accepts_sample sameLetter_refl 'x' (likeTokens query.toList))
      (accepts_many.mpr ⟨[], [], rfl, rfl⟩ : accepts sameLetter [.many] [] = true)
    rw [List.append_nil] at hmiddle
    exact accepts_many.mpr ⟨[], _, rfl, hmiddle⟩
  · rw [Bool.eq_false_iff, ne_eq, ← contains_iff]
    intro hcontains
    have hsame := hcontains.forall₂ (by simp [likeTokens])
    rw [likeTokens, List.map_map, List.forall₂_map_right_iff, List.forall₂_same] at hsame
    rcases h with h | h
    · have := hsame _ h
      revert this
      decide
    · have := hsame _ h
      revert this
      decide

theorem ilikeTokens_lit {escaped : Bool} {pattern : List Char} {tokens : List (Token Char)}
    (h : ilikeTokens escaped pattern = some tokens) : ∀ c, .lit c ∈ tokens → c ∈ pattern := by
  induction pattern generalizing escaped tokens with
  | nil =>
    cases escaped with
    | false =>
      cases h
      exact fun c hc => absurd hc List.not_mem_nil
    | true => cases h
  | cons d pattern ih =>
    intro c hc
    cases escaped with
    | true =>
      obtain ⟨rest, hrest, rfl⟩ := Option.map_eq_some_iff.mp h
      rcases List.mem_cons.mp hc with hc | hc
      · cases hc
        exact List.mem_cons_self
      · exact List.mem_cons_of_mem _ (ih hrest c hc)
    | false =>
      rw [ilikeTokens] at h
      split_ifs at h
      · exact List.mem_cons_of_mem _ (ih h c hc)
      · obtain ⟨rest, hrest, rfl⟩ := Option.map_eq_some_iff.mp h
        rcases List.mem_cons.mp hc with hc | hc
        · cases hc
        · exact List.mem_cons_of_mem _ (ih hrest c hc)
      · obtain ⟨rest, hrest, rfl⟩ := Option.map_eq_some_iff.mp h
        rcases List.mem_cons.mp hc with hc | hc
        · cases hc
        · exact List.mem_cons_of_mem _ (ih hrest c hc)
      · obtain ⟨rest, hrest, rfl⟩ := Option.map_eq_some_iff.mp h
        rcases List.mem_cons.mp hc with hc | hc
        · cases hc
          exact List.mem_cons_self
        · exact List.mem_cons_of_mem _ (ih hrest c hc)

/-- PostgreSQL: what is left of a query without wildcards once its backslashes have escaped what
follows them, down to the last wildcard of the pattern. -/
theorem ilikeTokens_escaped {query : List Char} (h : '%' ∉ query ∧ '_' ∉ query) (escaped : Bool) :
    ∃ lits, (ilikeTokens escaped (query ++ ['%']) = some (lits.map .lit ++ [.many]) ∧
        lits.length ≤ query.length ∧ (escaped = false → '\\' ∈ query → lits.length < query.length)) ∨
      (ilikeTokens escaped (query ++ ['%']) = some ((lits ++ ['%']).map .lit) ∧
        (lits ++ ['%']).length ≤ query.length + if escaped then 1 else 0) := by
  induction query generalizing escaped with
  | nil =>
    refine ⟨[], ?_⟩
    cases escaped with
    | false => exact .inl ⟨rfl, le_rfl, fun _ hmem => absurd hmem List.not_mem_nil⟩
    | true => exact .inr ⟨rfl, le_rfl⟩
  | cons c query ih =>
    simp only [List.mem_cons, not_or] at h
    obtain ⟨⟨hpercent, hquery⟩, hunderscore, hquery'⟩ := h
    cases escaped with
    | true =>
      obtain ⟨lits, ⟨hlits, hlen, -⟩ | ⟨hlits, hlen⟩⟩ := ih ⟨hquery, hquery'⟩ false
      · refine ⟨c :: lits, .inl ⟨?_, Nat.succ_le_succ hlen, nofun⟩⟩
        rw [List.cons_append, ilikeTokens, hlits]
        rfl
      · refine ⟨c :: lits, .inr ⟨?_, ?_⟩⟩
        · rw [List.cons_append, ilikeTokens, hlits]
          rfl
        · simp at hlen ⊢
          omega
    | false =>
      by_cases hescape : c = '\\'
      · obtain ⟨lits, ⟨hlits, hlen, -⟩ | ⟨hlits, hlen⟩⟩ := ih ⟨hquery, hquery'⟩ true
        · refine ⟨lits, .inl ⟨?_, Nat.le_succ_of_le hlen, fun _ _ => Nat.lt_succ_of_le hlen⟩⟩
          rw [List.cons_append, ilikeTokens, if_pos hescape, hlits]
        · refine ⟨lits, .inr ⟨?_, ?_⟩⟩
          · rw [List.cons_append, ilikeTokens, if_pos hescape, hlits]
          · simpa using hlen
      · obtain ⟨lits, ⟨hlits, hlen, hshort⟩ | ⟨hlits, hlen⟩⟩ := ih ⟨hquery, hquery'⟩ false
        · refine ⟨c :: lits, .inl ⟨?_, Nat.succ_le_succ hlen, fun _ hmem => ?_⟩⟩
          · rw [List.cons_append, ilikeTokens, if_neg hescape, if_neg (Ne.symm hpercent),
              if_neg (Ne.symm hunderscore), hlits]
            rfl
          · have hmem := (List.mem_cons.mp hmem).resolve_left (Ne.symm hescape)
            exact Nat.succ_lt_succ (hshort rfl hmem)
        · refine ⟨c :: lits, .inr ⟨?_, ?_⟩⟩
          · rw [List.cons_append, ilikeTokens, if_neg hescape, if_neg (Ne.symm hpercent),
              if_neg (Ne.symm hunderscore), hlits]
            rfl
          · simp at hlen ⊢
            omega

theorem eq_percent_of_toLower {c : Char} (h : c.toLower = '%') : c = '%' := by
  unfold Char.toLower at h
  split at h
  · rename_i hupper
    have hval := congrArg (fun c : Char => c.val.toNat) h
    simp only [ge_iff_le, UInt32.le_iff_toNat_le] at hupper
    simp only [UInt32.toNat_add] at hval
    simp at hupper hval
    omega
  · exact h

/-- PostgreSQL: a text in which a backslash is missing is found, though it does not contain the query. -/
theorem ilike_backslash {query : String} (h : '%' ∉ query.toList ∧ '_' ∉ query.toList)
    (hmem : '\\' ∈ query.toList) (hnul : nul ∉ query.toList) :
    ∃ test text, Engine.postgres.like (IssueFilter.pattern query) = .ok test ∧ nul ∉ text ∧
      test text = true ∧ containsQuery query.toList text = false := by
  have htokens : ∀ {p}, ilikeTokens false (query.toList ++ ['%']) = some p →
      ilikeTokens false (IssueFilter.pattern query) = some (.many :: p) := by
    intro p hp
    rw [IssueFilter.pattern, ilikeTokens, if_neg (by decide), if_pos rfl, hp]
    rfl
  have hletters : ∀ {p}, ilikeTokens false (query.toList ++ ['%']) = some p → .lit nul ∉ p := by
    intro p hp hlit
    rcases List.mem_append.mp (ilikeTokens_lit hp nul hlit) with hmem | hmem
    · exact hnul hmem
    · exact absurd hmem (by decide)
  obtain ⟨lits, ⟨hlits, hlen, hshort⟩ | ⟨hlits, hlen⟩⟩ := ilikeTokens_escaped h false
  · have hfree : nul ∉ lits := fun hmem => hletters hlits <|
      List.mem_append_left _ (List.mem_map.mpr ⟨nul, hmem, rfl⟩)
    refine ⟨_, lits, by rw [Engine.like, htokens hlits], hfree, ?_, ?_⟩
    · exact accepts_contains.mpr ⟨[], lits, [], by simp, forall₂_sameLetter.mpr rfl⟩
    · rw [Bool.eq_false_iff, ne_eq, ← contains_iff]
      intro hcontains
      exact absurd hcontains.length_le (Nat.not_le.mpr (hshort rfl hmem))
  · have hfree : nul ∉ lits ++ ['%'] := fun hmem => hletters hlits <|
      List.mem_map.mpr ⟨nul, hmem, rfl⟩
    refine ⟨_, lits ++ ['%'], by rw [Engine.like, htokens hlits], hfree, ?_, ?_⟩
    · refine accepts_many.mpr ⟨[], _, rfl, ?_⟩
      rw [← List.append_nil ((lits ++ ['%']).map _)]
      exact accepts_lits.mpr ⟨_, [], by simp, forall₂_sameLetter.mpr rfl, rfl⟩
    · rw [Bool.eq_false_iff, ne_eq, ← contains_iff]
      intro hcontains
      have hsame := forall₂_sameLetter.mp (hcontains.forall₂ (by simpa using hlen))
      have hpercent : '%' ∈ query.toList.map Char.toLower := by
        rw [hsame]
        exact List.mem_map.mpr ⟨'%', by simp, rfl⟩
      obtain ⟨c, hc, hlower⟩ := List.mem_map.mp hpercent
      exact h.1 (eq_percent_of_toLower hlower ▸ hc)

/-- Each metacharacter finds a text that does not contain the query, in one of the databases. -/
theorem exists_like_of_meta {query : String} (h : ∃ c ∈ query.toList, IsMeta c)
    (hnul : nul ∉ query.toList) (hlength : byteLength (IssueFilter.pattern query) ≤ maxPatternLength) :
    ∃ (E : Engine) (test : List Char → Bool) (text : List Char),
      E.like (IssueFilter.pattern query) = .ok test ∧ nul ∉ text ∧ test text = true ∧
        containsQuery query.toList text = false := by
  by_cases hwild : '%' ∈ query.toList ∨ '_' ∈ query.toList
  · exact ⟨.sqlite, like_wildcard hwild hnul hlength⟩
  · rw [not_or] at hwild
    obtain ⟨c, hc, rfl | rfl | rfl⟩ := h
    · exact absurd hc hwild.1
    · exact absurd hc hwild.2
    · exact ⟨.postgres, ilike_backslash hwild hc hnul⟩

/-- No title or culprit has a NUL, which PostgreSQL does not store. -/
def Store.NulFree (s : Store) : Prop :=
  ∀ i ∈ s.issues, nul ∉ i.title.toList ∧ ∀ culprit ∈ i.culprit, nul ∉ culprit.toList

/-- No text of the filter has a NUL; its query has no metacharacter and is not too long. -/
def IssueFilter.Plain (filter : IssueFilter) : Prop :=
  (∀ text ∈ filter.texts, nul ∉ text.toList) ∧ ∀ query ∈ filter.query,
    (∀ c ∈ query.toList, ¬ IsMeta c) ∧ byteLength (IssueFilter.pattern query) ≤ maxPatternLength

theorem IssueFilter.query_mem_texts {filter : IssueFilter} {query : String}
    (h : filter.query = some query) : query ∈ filter.texts := by
  simp [texts, List.reduceOption_mem_iff, h]

def IssueFilter.satisfied (filter : IssueFilter) (title : String) : Store :=
  .ofIssues [{ Issue.once 1 "issue1" title with
    status := filter.status.getD .unresolved
    level := filter.level
    environment := filter.environment
    release := filter.release }] 2

section Satisfied

variable (filter : IssueFilter) (title : String)

theorem IssueFilter.satisfied_consistent : (filter.satisfied title).Consistent := by
  constructor <;> simp [satisfied, Store.ofIssues, Issue.once, Table.UniqueOn]

theorem IssueFilter.satisfied_nulFree (h : nul ∉ title.toList) : (filter.satisfied title).NulFree := by
  simpa [Store.NulFree, satisfied, Store.ofIssues, Issue.once] using h

theorem IssueFilter.satisfied_candidates :
    Engine.candidates (filter.satisfied title) 0 filter = (filter.satisfied title).issues := by
  have hcolumn : ∀ value, columnIs value value = true := by
    intro value
    cases value <;> simp [columnIs]
  have hstatus : filter.status.all (fun status => filter.status.getD .unresolved = status) = true := by
    cases filter.status <;> simp
  simp [Engine.candidates, satisfied, Store.ofIssues, Issue.once, exactMatch, hcolumn, hstatus]

end Satisfied

theorem wanted_eq (filter : IssueFilter) (s : Store) (projectId : Id) :
    s.issues.filter (filter.Wanted projectId) = (Engine.candidates s projectId filter).filter fun i =>
      filter.query.all fun query => IssueFilter.textMatch (containsQuery query.toList) i := by
  rw [Engine.candidates, List.filter_filter]
  refine List.filter_congr fun i _ => ?_
  rw [IssueFilter.Wanted, Bool.and_comm]

theorem containsQuery_mono {query part text : List Char} (h : part <:+: text) :
    containsQuery query part = true → containsQuery query text = true := by
  simp only [containsQuery, decide_eq_true_eq]
  exact fun hpart => hpart.trans (h.map _)

theorem Engine.searched_infix (E : Engine) (text : List Char) : E.searched text <:+: text := by
  cases E with
  | sqlite => exact (List.takeWhile_prefix _).isInfix
  | postgres => exact List.infix_refl text

theorem Engine.searched_of_not_mem (E : Engine) {text : List Char} (h : nul ∉ text) :
    E.searched text = text := by
  cases E with
  | sqlite => exact untilNul_of_not_mem h
  | postgres => rfl

theorem IssueFilter.textMatch_mono {test test' : List Char → Bool}
    (h : ∀ text, test text = true → test' text = true) {i : Issue} :
    textMatch test i = true → textMatch test' i = true := by
  simp only [textMatch, Bool.or_eq_true, Option.any_eq_true]
  rintro (htitle | ⟨culprit, hculprit, hfound⟩)
  · exact .inl (h _ htitle)
  · exact .inr ⟨culprit, hculprit, h _ hfound⟩

theorem Engine.Sees.contains {E : Engine} {filter : IssueFilter} {i : Issue}
    (h : E.Sees filter i = true) :
    (filter.query.all fun query =>
      IssueFilter.textMatch (containsQuery query.toList) i) = true := by
  simp only [Sees, Option.all_eq_true] at h ⊢
  intro query hquery
  refine IssueFilter.textMatch_mono (fun text => ?_) (h query hquery)
  exact containsQuery_mono (E.searched_infix text)

theorem Engine.sees_of_nulFree (E : Engine) {s : Store} (hs : s.NulFree) {filter : IssueFilter}
    {projectId : Id} {i : Issue} (hi : i ∈ s.issues) (hwanted : filter.Wanted projectId i = true) :
    E.Sees filter i = true := by
  obtain ⟨htitle, hculprit⟩ := hs i hi
  simp only [IssueFilter.Wanted, Bool.and_eq_true, Option.all_eq_true] at hwanted
  simp only [Sees, Option.all_eq_true]
  intro query hquery
  have hfound := hwanted.2 query hquery
  simp only [IssueFilter.textMatch, Bool.or_eq_true, Option.any_eq_true] at hfound ⊢
  rcases hfound with hfound | ⟨culprit, hc, hfound⟩
  · rw [E.searched_of_not_mem htitle]
    exact .inl hfound
  · refine .inr ⟨culprit, hc, ?_⟩
    rw [E.searched_of_not_mem (hculprit culprit hc)]
    exact hfound

/-- A plain filter selects the issues whose searched texts contain its query. -/
theorem Engine.selected_of_plain (E : Engine) (s : Store) (projectId : Id) {filter : IssueFilter}
    (h : filter.Plain) :
    E.selected s projectId filter =
      .ok ((candidates s projectId filter).filter (E.Sees filter)) := by
  rw [selected_of_bindTexts ((bindTexts_eq_ok E filter).mpr fun _ => h.1)]
  unfold Sees
  cases hquery : filter.query with
  | none => simp
  | some query =>
    obtain ⟨hmeta, hlength⟩ := h.2 query hquery
    obtain ⟨test, htest, hsame⟩ :=
      like_plain E hmeta (h.1 query (IssueFilter.query_mem_texts hquery)) hlength
    obtain rfl : test = fun text => containsQuery query.toList (E.searched text) := funext hsame
    dsimp only
    split_ifs with hempty
    · rw [List.isEmpty_iff.mp hempty]
      rfl
    · rw [htest]
      rfl

/-- A plain filter selects what it asks for, if and only if the query of each of these issues stands
where the database searches. -/
theorem Engine.selected_eq_iff (E : Engine) (s : Store) (projectId : Id) {filter : IssueFilter}
    (h : filter.Plain) :
    E.selected s projectId filter = .ok (s.issues.filter (filter.Wanted projectId)) ↔
      ∀ i ∈ s.issues, filter.Wanted projectId i = true → E.Sees filter i = true := by
  rw [E.selected_of_plain s projectId h]
  constructor
  · intro hsame i hi hwanted
    have hmem := List.mem_filter.mpr ⟨hi, hwanted⟩
    rw [← Except.ok.inj hsame] at hmem
    exact (List.mem_filter.mp hmem).2
  · intro hsees
    rw [wanted_eq]
    refine congrArg Except.ok (List.filter_congr fun i hi => ?_)
    rw [Bool.eq_iff_iff]
    refine ⟨Sees.contains, fun hcontains => hsees i (List.mem_of_mem_filter hi) ?_⟩
    have hwanted : i ∈ s.issues.filter (filter.Wanted projectId) := by
      rw [wanted_eq]
      exact List.mem_filter.mpr ⟨hi, hcontains⟩
    exact (List.mem_filter.mp hwanted).2

/-- A filter that is not plain selects something else from some store, or nothing at all. -/
theorem Engine.exists_selected_ne {filter : IssueFilter} (h : ¬ filter.Plain) :
    ∃ (E : Engine) (s : Store), s.Consistent ∧ s.NulFree ∧
      E.selected s 0 filter ≠ .ok (s.issues.filter (filter.Wanted 0)) := by
  by_cases htexts : ∀ text ∈ filter.texts, nul ∉ text.toList
  · rw [IssueFilter.Plain, and_iff_right htexts] at h
    push Not at h
    obtain ⟨query, hquery, hbad⟩ := h
    have hquery : filter.query = some query := hquery
    have hnul := htexts query (IssueFilter.query_mem_texts hquery)
    have hbind : ∀ E : Engine, E.bindTexts filter = .ok () := fun E =>
      (bindTexts_eq_ok E filter).mpr fun _ => htexts
    have hselected : ∀ (E : Engine) (title : String), E.selected (filter.satisfied title) 0 filter =
        (E.like (IssueFilter.pattern query)).map fun test =>
          (filter.satisfied title).issues.filter (IssueFilter.textMatch test) := by
      intro E title
      rw [selected_of_bindTexts (hbind E), hquery, IssueFilter.satisfied_candidates]
      rfl
    by_cases hlength : byteLength (IssueFilter.pattern query) ≤ maxPatternLength
    · have hmeta : ∃ c ∈ query.toList, IsMeta c := by
        by_contra hnone
        push Not at hnone
        exact absurd hlength (Nat.not_le.mpr (hbad hnone))
      obtain ⟨E, test, text, htest, hfree, hfound, hmissing⟩ := exists_like_of_meta hmeta hnul hlength
      refine ⟨E, filter.satisfied (String.ofList text), filter.satisfied_consistent _,
        filter.satisfied_nulFree _ (by simpa using hfree), ?_⟩
      rw [hselected, htest, wanted_eq, IssueFilter.satisfied_candidates, hquery]
      simp [Except.map, IssueFilter.satisfied, Store.ofIssues, Issue.once, IssueFilter.textMatch, hfound,
        hmissing]
    · refine ⟨.sqlite, filter.satisfied "", filter.satisfied_consistent _,
        filter.satisfied_nulFree _ (by decide), ?_⟩
      rw [hselected, like, if_pos (Nat.lt_of_not_le hlength)]
      exact fun hok => by cases hok
  · refine ⟨.postgres, filter.satisfied "", filter.satisfied_consistent _,
      filter.satisfied_nulFree _ (by decide), fun hok => htexts ?_⟩
    exact (exists_selected_iff .postgres _ 0 filter).mp ⟨_, hok⟩

/--
The issue list selects, in both databases, the issues of the project that satisfy the equalities of
the filter and contain its query, whatever both can store: if and only if the filter is plain. From a
store with NULs, which only SQLite has, a plain filter selects these issues if and only if none of
them has the query only behind a NUL.
-/
theorem Engine.selected_substring_iff (filter : IssueFilter) :
    ((∀ (E : Engine) (s : Store) (projectId : Id), s.Consistent → s.NulFree →
      E.selected s projectId filter = .ok (s.issues.filter (filter.Wanted projectId))) ↔
    filter.Plain) ∧
    (filter.Plain → ∀ (E : Engine) (s : Store) (projectId : Id),
      E.selected s projectId filter = .ok (s.issues.filter (filter.Wanted projectId)) ↔
        ∀ i ∈ s.issues, filter.Wanted projectId i = true → E.Sees filter i = true) := by
  refine ⟨⟨fun h => ?_, fun h E s projectId _ hnul => ?_⟩, fun h E s projectId => ?_⟩
  · by_contra hplain
    obtain ⟨E, s, hs, hnul, hne⟩ := exists_selected_ne hplain
    exact hne (h E s 0 hs hnul)
  · exact (E.selected_eq_iff s projectId h).mpr fun i hi => E.sees_of_nulFree hnul hi
  · exact E.selected_eq_iff s projectId h

def Store.withTitle (title : String) : Store := .ofIssues [.once 1 "issue1" title] 2

/-- A title without the percent sign of the query is found. -/
theorem Engine.selected_percent :
    ¬ (Engine.sqlite.selected (.withTitle "100 requests failed") 0 (.ofQuery (some "100%")) =
        .ok ((Store.withTitle "100 requests failed").issues.filter
          ((IssueFilter.ofQuery (some "100%")).Wanted 0))) ∧
      containsQuery "100%".toList "100 requests failed".toList = false := by
  decide +kernel

end Soika
