import Soika.Domain.Trim
import Soika.Grouping.Scan

/-! # Normalized messages are in normal form

What one pass writes is settled: it has no digits, no whitespace but single spaces, and no UUID that a
scan could come upon. A second pass leaves a settled text as it is.
-/

namespace Soika

/-- Nothing is left to normalize behind a character of these kinds. A UUID is not looked for behind a
letter, where no position of a scan is. -/
def Settled : (prevSpace prevAlnum : Bool) → List Char → Prop
  | _, _, [] => True
  | prevSpace, prevAlnum, c :: cs =>
    c.isDigit = false ∧ (isWhitespace c = true → c = ' ' ∧ prevSpace = false) ∧
      (prevAlnum = false → isUuid ((c :: cs).take 36) = false) ∧
      Settled (isWhitespace c) c.isAlphanum cs

variable {prevSpace prevAlnum : Bool}

theorem Settled.mono {s : List Char} (h : Settled prevSpace false s) :
    Settled prevSpace prevAlnum s := by
  cases s with
  | nil => trivial
  | cons c s => exact ⟨h.1, h.2.1, fun _ => h.2.2.1 rfl, h.2.2.2⟩

theorem Settled.of_apart {s : List Char} (h : Settled prevSpace prevAlnum s) (hs : Apart s) :
    Settled prevSpace false s := by
  cases s with
  | nil => trivial
  | cons c s => exact ⟨h.1, h.2.1, fun _ => not_isUuid_of_not_isAlphanum (hs c rfl) s, h.2.2.2⟩

theorem isAlphanum_eq_false {c : Char} (h : isWhitespace c = true) : c.isAlphanum = false := by
  by_contra hc
  rw [isWhitespace_eq_false (Bool.eq_true_of_not_eq_false hc)] at h
  cases h

theorem Settled.behind_run {run rest : List Char} (hne : run ≠ [])
    (hrun : ∀ c ∈ run, c.isAlphanum = true) (h : Settled prevSpace prevAlnum (run ++ rest)) :
    (∀ c ∈ run, c.isDigit = false) ∧ Settled false true rest := by
  induction run generalizing prevSpace prevAlnum with
  | nil => exact absurd rfl hne
  | cons c run ih =>
    obtain ⟨hc, hrun⟩ := List.forall_mem_cons.mp hrun
    obtain ⟨hdigit, -, -, hrest⟩ := h
    rw [hc, isWhitespace_eq_false hc] at hrest
    cases run with
    | nil => exact ⟨by simpa using hdigit, hrest⟩
    | cons d run =>
      obtain ⟨hdigits, hrest⟩ := ih (List.cons_ne_nil d run) hrun hrest
      exact ⟨List.forall_mem_cons.mpr ⟨hdigit, hdigits⟩, hrest⟩

theorem collapseDigitRuns_of_no_digit {token : List Char} (h : ∀ c ∈ token, c.isDigit = false)
    {prevDigit : Bool} : collapseDigitRuns prevDigit token = token := by
  induction token generalizing prevDigit with
  | nil => rfl
  | cons c token ih =>
    obtain ⟨hc, htoken⟩ := List.forall_mem_cons.mp h
    rw [collapseDigitRuns, if_neg (by simp [hc]), ih htoken]

theorem normalizeToken_of_no_digit {token : List Char} (h : ∀ c ∈ token, c.isDigit = false) :
    normalizeToken token = token := by
  have hany : token.any Char.isDigit = false := by simpa using h
  simp [normalizeToken, hany, collapseDigitRuns_of_no_digit h]

theorem normalizeChars_of_settled (s : List Char) :
    ∀ {prevSpace : Bool}, Settled prevSpace false s → normalizeChars 0 prevSpace s = s := by
  induction s using scan_induction with
  | nil => exact fun _ => rfl
  | space c rest hc ih =>
    rintro prevSpace ⟨-, hspace, -, hrest⟩
    rw [hc, isAlphanum_eq_false hc] at hrest
    obtain ⟨rfl, rfl⟩ := hspace hc
    rw [normalizeChars_space hc, ih hrest]
    rfl
  | uuid u rest hu ih =>
    intro prevSpace h
    have hlen := isUuid_length hu
    obtain ⟨c, u, rfl⟩ := List.exists_cons_of_length_pos (l := u) (by omega)
    have hnot : isUuid ((c :: u ++ rest).take 36) = false := h.2.2.1 rfl
    rw [← hlen, List.take_left, hu] at hnot
    cases hnot
  | token token rest htoken ih =>
    intro prevSpace h
    obtain ⟨hdigits, hrest⟩ := h.behind_run htoken.ne_nil htoken.alnum
    rw [normalizeChars_token htoken, normalizeToken_of_no_digit hdigits,
      ih (hrest.of_apart htoken.apart)]
  | other c rest hspace hc ih =>
    rintro prevSpace ⟨-, -, -, hrest⟩
    rw [hspace, hc] at hrest
    rw [normalizeChars_other hspace hc, ih hrest]

theorem Settled.cons_other {c : Char} {s : List Char} (hspace : isWhitespace c = false)
    (hc : c.isAlphanum = false) (h : Settled false false s) :
    Settled prevSpace prevAlnum (c :: s) := by
  have hdigit : c.isDigit = false := by
    by_contra hdigit
    rw [isAlphanum_iff.mpr (.inr (Bool.eq_true_of_not_eq_false hdigit))] at hc
    cases hc
  refine ⟨hdigit, by simp [hspace], fun _ => not_isUuid_of_not_isAlphanum hc s, ?_⟩
  rwa [hspace, hc]

theorem Settled.run_append {run rest : List Char} (hne : run ≠ [])
    (hrun : ∀ c ∈ run, c.isAlphanum = true ∧ c.isDigit = false)
    (huuid : prevAlnum = false → isUuid ((run ++ rest).take 36) = false)
    (h : Settled false true rest) : Settled prevSpace prevAlnum (run ++ rest) := by
  induction run generalizing prevSpace prevAlnum with
  | nil => exact absurd rfl hne
  | cons c run ih =>
    obtain ⟨⟨hc, hdigit⟩, hrun⟩ := List.forall_mem_cons.mp hrun
    refine ⟨hdigit, by simp [isWhitespace_eq_false hc], huuid, ?_⟩
    rw [hc, isWhitespace_eq_false hc]
    cases run with
    | nil => exact h
    | cons d run => exact ih (List.cons_ne_nil d run) hrun (by simp)

/-- A word between angle brackets that starts with no hexadecimal digit. -/
theorem Settled.placeholder (c : Char) (word : List Char) {s : List Char}
    (hhex : isAsciiHexdigit c = false)
    (hword : (c :: word).all (fun d => d.isAlphanum && !d.isDigit) = true)
    (h : Settled false false s) : Settled prevSpace prevAlnum ('<' :: (c :: word ++ '>' :: s)) := by
  have hword : ∀ d ∈ c :: word, d.isAlphanum = true ∧ d.isDigit = false := by
    simpa only [List.all_eq_true, Bool.and_eq_true, Bool.not_eq_true'] using hword
  refine .cons_other (by decide) (by decide) ?_
  refine .run_append (List.cons_ne_nil c word) hword (fun _ => ?_)
    (.cons_other (by decide) (by decide) h)
  by_contra hu
  rw [Bool.not_eq_false] at hu
  have hfirst := (isUuid_iff.mp hu).2 0 c rfl
  rw [if_neg (by decide), hhex] at hfirst
  cases hfirst

theorem Settled.int {s : List Char} (h : Settled false false s) :
    Settled prevSpace prevAlnum (placeholderInt ++ s) :=
  .placeholder 'i' ['n', 't'] (by decide) rfl h

theorem Settled.id {s : List Char} (h : Settled false false s) :
    Settled prevSpace prevAlnum (placeholderId ++ s) :=
  .placeholder 'i' ['d'] (by decide) rfl h

theorem Settled.uuid {s : List Char} (h : Settled false false s) :
    Settled prevSpace prevAlnum (placeholderUuid ++ s) :=
  .placeholder 'u' ['u', 'i', 'd'] (by decide) rfl h

/-- The letters before the first digit of a token stay, and nothing longer than the token starts with
them. -/
theorem collapseDigitRuns_split (token : List Char) (halnum : ∀ c ∈ token, c.isAlphanum = true)
    {rest : List Char} (hrest : Apart rest) : ∃ run tail,
      collapseDigitRuns false token ++ rest = run ++ tail ∧ (∀ c ∈ run, c.isAlphanum = true) ∧
        run.length ≤ token.length ∧ Apart tail := by
  induction token with
  | nil => exact ⟨[], rest, rfl, by simp, le_rfl, hrest⟩
  | cons c token ih =>
    obtain ⟨hc, halnum⟩ := List.forall_mem_cons.mp halnum
    by_cases hdigit : c.isDigit = true
    · refine ⟨[], _, rfl, by simp, Nat.zero_le _, ?_⟩
      rw [collapseDigitRuns, if_pos hdigit]
      intro d hd
      cases hd
      decide
    · obtain ⟨run, tail, heq, hrun, hle, htail⟩ := ih halnum
      refine ⟨c :: run, tail, ?_, List.forall_mem_cons.mpr ⟨hc, hrun⟩, Nat.succ_le_succ hle, htail⟩
      rw [collapseDigitRuns, if_neg hdigit, List.cons_append, heq]
      rfl

theorem Settled.collapse {token rest : List Char} {prevDigit : Bool} (hlen : token.length < 8)
    (halnum : ∀ c ∈ token, c.isAlphanum = true) (hapart : Apart rest)
    (h : Settled false false rest) (hspace : prevSpace = true → prevDigit = false ∧ token ≠ []) :
    Settled prevSpace prevAlnum (collapseDigitRuns prevDigit token ++ rest) := by
  induction token generalizing prevSpace prevAlnum prevDigit with
  | nil =>
    cases prevSpace with
    | false => exact h.mono
    | true => exact absurd rfl (hspace rfl).2
  | cons c token ih =>
    obtain ⟨hc, halnum⟩ := List.forall_mem_cons.mp halnum
    rw [List.length_cons] at hlen
    have ih {prevAlnum prevDigit : Bool} :
        Settled false prevAlnum (collapseDigitRuns prevDigit token ++ rest) :=
      ih (by omega) halnum (by simp)
    by_cases hdigit : c.isDigit = true
    · rw [collapseDigitRuns, if_pos hdigit]
      cases prevDigit with
      | true =>
        cases prevSpace with
        | false => exact ih
        | true => exact absurd (hspace rfl).1 (by decide)
      | false =>
        rw [if_neg (by decide), List.append_assoc]
        exact .int ih
    · rw [collapseDigitRuns, if_neg hdigit, List.cons_append]
      change Settled prevSpace prevAlnum ([c] ++ (collapseDigitRuns false token ++ rest))
      refine .run_append (by simp) (by simpa [hc] using hdigit) (fun _ => ?_) ih
      -- a UUID would have eight letters or digits here
      obtain ⟨run, tail, heq, hrun, hle, htail⟩ := collapseDigitRuns_split token halnum hapart
      by_contra hu
      change ¬ isUuid ((c :: (collapseDigitRuns false token ++ rest)).take 36) = false at hu
      rw [Bool.not_eq_false, heq, ← List.cons_append] at hu
      have := length_of_isUuid (List.forall_mem_cons.mpr ⟨hc, hrun⟩) htail hu
      rw [List.length_cons] at this
      omega

theorem apart_normalizeChars {s : List Char} (hs : Apart s) : Apart (normalizeChars 0 false s) := by
  cases s with
  | nil => exact hs
  | cons c s =>
    have hc := hs c rfl
    by_cases hspace : isWhitespace c = true
    · rw [normalizeChars_space hspace]
      intro d hd
      cases hd
      decide
    · rw [normalizeChars_other (Bool.eq_false_of_not_eq_true hspace) hc]
      exact hs

/-- A character that may stand in a UUID. -/
def Plain (c : Char) : Prop := isAsciiHexdigit c = true ∨ c = '-'

theorem plain_of_isUuid {s : List Char} (h : isUuid s = true) : ∀ c ∈ s, Plain c := by
  intro c hc
  obtain ⟨i, hi, rfl⟩ := List.mem_iff_getElem.mp hc
  have := (isUuid_iff.mp h).2 i _ (List.getElem?_eq_getElem hi)
  split at this
  · exact .inr this
  · exact .inl this

def SamePlain (out s : List Char) : Prop :=
  ∀ n, (∀ c ∈ out.take n, Plain c) → out.take n = s.take n

theorem SamePlain.cons {out s : List Char} (c : Char) (h : SamePlain out s) :
    SamePlain (c :: out) (c :: s) := by
  intro n hn
  cases n with
  | zero => rfl
  | succ n =>
    rw [List.take_succ_cons] at hn
    rw [List.take_succ_cons, List.take_succ_cons, h n (List.forall_mem_cons.mp hn).2]

theorem SamePlain.of_not_plain {out s : List Char} {c : Char} (hc : ¬ Plain c) :
    SamePlain (c :: out) s := by
  intro n hn
  cases n with
  | zero => rfl
  | succ n =>
    rw [List.take_succ_cons] at hn
    exact absurd (List.forall_mem_cons.mp hn).1 hc

theorem SamePlain.append {out s : List Char} (token : List Char) (h : SamePlain out s) :
    SamePlain (token ++ out) (token ++ s) := by
  induction token with
  | nil => exact h
  | cons c token ih => exact ih.cons c

theorem not_plain_bracket : ¬ Plain '<' := by unfold Plain; decide

theorem SamePlain.collapse {out s : List Char} (token : List Char) (h : SamePlain out s) :
    SamePlain (collapseDigitRuns false token ++ out) (token ++ s) := by
  induction token with
  | nil => exact h
  | cons c token ih =>
    by_cases hdigit : c.isDigit = true
    · rw [collapseDigitRuns, if_pos hdigit]
      exact .of_not_plain not_plain_bracket
    · rw [collapseDigitRuns, if_neg hdigit]
      exact ih.cons c

/-- What becomes of a token: a placeholder, or itself with its digits collapsed where it is short. -/
theorem normalizeToken_cases (token : List Char) :
    normalizeToken token = placeholderInt ∨ normalizeToken token = placeholderId ∨
      normalizeToken token = collapseDigitRuns false token ∧
        ((∀ c ∈ token, c.isDigit = false) ∨ token.length < minRandomTokenLen) := by
  unfold normalizeToken
  by_cases hdigit : token.any Char.isDigit = true
  · by_cases halpha : token.any Char.isAlpha = true
    · by_cases hlen : minRandomTokenLen ≤ token.length
      · exact .inr (.inl (by simp [hdigit, halpha, hlen]))
      · exact .inr (.inr ⟨by simp [hdigit, halpha, hlen], .inr (Nat.lt_of_not_le hlen)⟩)
    · exact .inl (by simp [hdigit, halpha])
  · exact .inr (.inr ⟨by simp [hdigit], .inl (by simpa using hdigit)⟩)

/-- What is written is what was read, up to the first character that may not stand in a UUID. -/
theorem samePlain_normalizeChars (s : List Char) : SamePlain (normalizeChars 0 false s) s := by
  induction s using scan_induction with
  | nil => exact fun _ _ => rfl
  | space c rest hc ih =>
    rw [normalizeChars_space hc]
    exact .of_not_plain (by unfold Plain; decide)
  | uuid u rest hu ih =>
    rw [normalizeChars_uuid hu]
    exact .of_not_plain not_plain_bracket
  | token token rest htoken ih =>
    rw [normalizeChars_token htoken]
    rcases normalizeToken_cases token with h | h | ⟨h, -⟩
    · rw [h]
      exact .of_not_plain not_plain_bracket
    · rw [h]
      exact .of_not_plain not_plain_bracket
    · rw [h]
      exact ih.collapse token
  | other c rest hspace hc ih =>
    rw [normalizeChars_other hspace hc]
    exact ih.cons c

theorem settled_normalizeChars (s : List Char) :
    ∀ {prevSpace : Bool}, Settled prevSpace false (normalizeChars 0 prevSpace s) := by
  induction s using scan_induction with
  | nil => exact trivial
  | space c rest hc ih =>
    intro prevSpace
    rw [normalizeChars_space hc]
    cases prevSpace with
    | true => exact ih
    | false =>
      exact ⟨by decide, fun _ => ⟨rfl, rfl⟩, fun _ => not_isUuid_of_not_isAlphanum (by decide) _, ih⟩
  | uuid u rest hu ih =>
    intro prevSpace
    rw [normalizeChars_uuid hu]
    exact .uuid ih
  | token token rest htoken ih =>
    intro prevSpace
    rw [normalizeChars_token htoken]
    rcases normalizeToken_cases token with h | h | ⟨h, hdigits | hlen⟩
    · rw [h]
      exact .int ih
    · rw [h]
      exact .id ih
    · rw [h, collapseDigitRuns_of_no_digit hdigits]
      refine .run_append htoken.ne_nil (fun c hc => ⟨htoken.alnum c hc, hdigits c hc⟩) (fun _ => ?_)
        ih.mono
      -- a UUID here would have been seen by the scan
      by_contra hu
      rw [Bool.not_eq_false] at hu
      have hsame := (samePlain_normalizeChars rest).append token 36 (plain_of_isUuid hu)
      rw [hsame, htoken.not_uuid] at hu
      cases hu
    · rw [h]
      have hlen : token.length < 8 := hlen.trans (by decide)
      exact .collapse hlen htoken.alnum (apart_normalizeChars htoken.apart) ih
        fun _ => ⟨rfl, htoken.ne_nil⟩
  | other c rest hspace hc ih =>
    intro prevSpace
    rw [normalizeChars_other hspace hc]
    exact .cons_other hspace hc ih

theorem Settled.of_append {s rest : List Char} (h : Settled prevSpace prevAlnum (s ++ rest)) :
    Settled prevSpace prevAlnum s := by
  induction s generalizing prevSpace prevAlnum with
  | nil => trivial
  | cons c s ih =>
    obtain ⟨hdigit, hspace, huuid, hrest⟩ := h
    refine ⟨hdigit, hspace, fun hprev => ?_, ih hrest⟩
    by_contra hu
    rw [Bool.not_eq_false] at hu
    have hlen := isUuid_length hu
    rw [List.length_take] at hlen
    have hsame : (c :: s ++ rest).take 36 = (c :: s).take 36 :=
      List.take_append_of_le_length (by omega)
    have hnot : isUuid ((c :: s ++ rest).take 36) = false := huuid hprev
    rw [hsame, hu] at hnot
    cases hnot

theorem Settled.dropWhile {s : List Char} (h : Settled prevSpace false s) :
    Settled false false (s.dropWhile isWhitespace) := by
  induction s generalizing prevSpace with
  | nil => trivial
  | cons c s ih =>
    by_cases hc : isWhitespace c = true
    · have hrest := h.2.2.2
      rw [isAlphanum_eq_false hc] at hrest
      rw [List.dropWhile_cons_of_pos hc]
      exact ih hrest
    · rw [List.dropWhile_cons_of_neg hc]
      exact ⟨h.1, fun hspace => absurd hspace hc, h.2.2.1, h.2.2.2⟩

theorem Settled.trim {s : List Char} (h : Settled prevSpace false s) :
    Settled false false (trimChars s) := by
  obtain ⟨rest, hrest⟩ := List.rdropWhile_prefix isWhitespace (l := s.dropWhile isWhitespace)
  have hdrop := h.dropWhile
  rw [← hrest] at hdrop
  exact hdrop.of_append

theorem Settled.char {s : List Char} (h : Settled prevSpace prevAlnum s) :
    ∀ c ∈ s, c.isDigit = false ∧ (isWhitespace c = true → c = ' ') := by
  induction s generalizing prevSpace prevAlnum with
  | nil => simp
  | cons c s ih =>
    exact List.forall_mem_cons.mpr ⟨⟨h.1, fun hc => (h.2.1 hc).1⟩, ih h.2.2.2⟩

theorem Settled.not_double_space {s : List Char} (h : Settled prevSpace prevAlnum s) :
    ¬ [' ', ' '] <:+: s := by
  induction s generalizing prevSpace prevAlnum with
  | nil => simp
  | cons c s ih =>
    rw [List.infix_cons_iff, not_or]
    refine ⟨?_, ih h.2.2.2⟩
    rintro ⟨rest, hrest⟩
    obtain ⟨rfl, rfl⟩ := List.cons.inj hrest
    have := (h.2.2.2.2.1 (by decide)).2
    revert this
    decide

structure NormalForm (message : String) : Prop where
  settled : Settled false false message.toList
  head : ∀ c ∈ message.toList.head?, isWhitespace c = false
  last : ∀ c ∈ message.toList.getLast?, isWhitespace c = false

theorem normalForm_normalizeMessage (message : String) : NormalForm (normalizeMessage message) := by
  have hchars : (normalizeMessage message).toList =
      trimChars (normalizeChars 0 false (trimChars message.toList)) := by
    rw [normalizeMessage, String.toList_ofList]
  constructor
  · rw [hchars]
    exact (settled_normalizeChars _).trim
  · rw [hchars]
    exact trimChars_head
  · rw [hchars]
    exact trimChars_getLast

theorem NormalForm.normalizeMessage_eq {message : String} (h : NormalForm message) :
    normalizeMessage message = message := by
  have htrim := trimChars_of_ends h.head h.last
  rw [normalizeMessage, htrim, normalizeChars_of_settled _ h.settled, htrim, String.ofList_toList]

theorem NormalForm.char {message : String} (h : NormalForm message) :
    ∀ c ∈ message.toList, c.isDigit = false ∧ (isWhitespace c = true → c = ' ') := h.settled.char

theorem NormalForm.not_double_space {message : String} (h : NormalForm message) :
    ¬ [' ', ' '] <:+: message.toList := h.settled.not_double_space

/--
A normalized message is in normal form: normalizing it again leaves it as it is, it has no digits, it
neither starts nor ends with whitespace, and its whitespace is single spaces.
-/
theorem normalizeMessage_normal (message : String) :
    normalizeMessage (normalizeMessage message) = normalizeMessage message ∧
      (∀ c ∈ (normalizeMessage message).toList, c.isDigit = false) ∧
      (∀ c ∈ (normalizeMessage message).toList.head?, isWhitespace c = false) ∧
      (∀ c ∈ (normalizeMessage message).toList.getLast?, isWhitespace c = false) ∧
      (∀ c ∈ (normalizeMessage message).toList, isWhitespace c = true → c = ' ') ∧
      ¬ [' ', ' '] <:+: (normalizeMessage message).toList := by
  have h := normalForm_normalizeMessage message
  exact ⟨h.normalizeMessage_eq, fun c hc => (h.char c hc).1, h.head, h.last,
    fun c hc => (h.char c hc).2, h.not_double_space⟩

end Soika
