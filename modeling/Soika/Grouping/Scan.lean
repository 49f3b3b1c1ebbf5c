import Mathlib.Data.List.TakeWhile
import Soika.Domain.Trim
import Soika.Grouping.Normalize

/-! # The scan of a message

At each of its positions the scan of `normalize_message` sees a whitespace, a UUID, a token or another
character, and goes on behind it.
-/

namespace Soika

/-- The text does not start with a letter or digit. -/
def Apart (s : List Char) : Prop := ∀ c ∈ s.head?, c.isAlphanum = false

/-- A maximal run of letters and digits at the start of a text, and no UUID there. -/
structure TokenAt (token rest : List Char) : Prop where
  ne_nil : token ≠ []
  alnum : ∀ c ∈ token, c.isAlphanum = true
  apart : Apart rest
  not_uuid : isUuid ((token ++ rest).take 36) = false

theorem isAlphanum_of_isAsciiHexdigit {c : Char} (h : isAsciiHexdigit c = true) :
    c.isAlphanum = true := by
  rw [isAlphanum_iff, isAlpha_iff]
  simp only [isAsciiHexdigit, Bool.or_eq_true, Bool.and_eq_true, decide_eq_true_eq, Char.le_def,
    UInt32.le_iff_toNat_le] at h
  rcases h with (h | h) | h
  · exact .inr h
  · refine .inl (.inr ⟨h.1, h.2.trans (by decide)⟩)
  · exact .inl (.inl ⟨h.1, h.2.trans (by decide)⟩)

def DashAt (i : ℕ) : Prop := i = 8 ∨ i = 13 ∨ i = 18 ∨ i = 23

instance (i : ℕ) : Decidable (DashAt i) := inferInstanceAs (Decidable (_ ∨ _))

theorem isUuid_iff {s : List Char} : isUuid s = true ↔ s.length = 36 ∧
    ∀ i c, s[i]? = some c → if DashAt i then c = '-' else isAsciiHexdigit c = true := by
  simp only [isUuid, Bool.and_eq_true, decide_eq_true_eq, List.all_eq_true, Prod.forall,
    List.mk_mem_zipIdx_iff_getElem?]
  refine and_congr_right fun _ => ⟨fun h i c hc => ?_, fun h c i hc => ?_⟩
  · have := h c i hc
    unfold DashAt
    split at this <;> simp_all
  · have := h i c hc
    unfold DashAt at this
    split <;> simp_all

theorem isUuid_length {s : List Char} (h : isUuid s = true) : s.length = 36 := (isUuid_iff.mp h).1

theorem dashAt_of_isUuid {s : List Char} (h : isUuid s = true) {i : ℕ} {c : Char}
    (hc : s[i]? = some c) : c.isAlphanum = false ↔ DashAt i := by
  have hi := (isUuid_iff.mp h).2 i c hc
  split at hi
  · rename_i hdash
    subst hi
    exact iff_of_true (by decide) hdash
  · rename_i hdash
    rw [isAlphanum_of_isAsciiHexdigit hi]
    exact iff_of_false (by decide) hdash

theorem isUuid_head {c : Char} {s : List Char} (h : isUuid (c :: s) = true) :
    c.isAlphanum = true := by
  by_contra hc
  rw [Bool.not_eq_true, dashAt_of_isUuid h (i := 0) rfl] at hc
  revert hc
  decide

/-- A run of letters and digits at the start of a UUID, where it ends, is the first group. -/
theorem length_of_isUuid {run rest : List Char} (hrun : ∀ c ∈ run, c.isAlphanum = true)
    (hapart : Apart rest) (h : isUuid ((run ++ rest).take 36) = true) : run.length = 8 := by
  have hlen := isUuid_length h
  rw [List.length_take, List.length_append] at hlen
  have hget : ∀ i < 36, ((run ++ rest).take 36)[i]? = (run ++ rest)[i]? := fun i hi =>
    List.getElem?_take_of_lt hi
  rcases Nat.lt_trichotomy run.length 8 with hlt | heq | hgt
  · -- the character behind the run would be one of the first group
    exfalso
    obtain ⟨c, cs, rfl⟩ := List.exists_cons_of_length_pos (l := rest) (by omega)
    have hc : ((run ++ c :: cs).take 36)[run.length]? = some c := by
      rw [hget _ (by omega), List.getElem?_append_right le_rfl, Nat.sub_self]
      rfl
    have hdash := (dashAt_of_isUuid h hc).mp (hapart c rfl)
    unfold DashAt at hdash
    omega
  · exact heq
  · exfalso
    have hc : ((run ++ rest).take 36)[8]? = some run[8] := by
      rw [hget _ (by omega), List.getElem?_append_left hgt, List.getElem?_eq_getElem hgt]
    have hdash := (dashAt_of_isUuid h hc).mpr (by decide)
    rw [hrun _ (List.getElem_mem _)] at hdash
    cases hdash

variable {prevSpace : Bool}

theorem normalizeChars_skip (done rest : List Char) :
    normalizeChars done.length prevSpace (done ++ rest) = normalizeChars 0 prevSpace rest := by
  induction done with
  | nil => rfl
  | cons c done ih => exact ih

theorem normalizeChars_space {c : Char} (hc : isWhitespace c = true) (rest : List Char) :
    normalizeChars 0 prevSpace (c :: rest) =
      (if prevSpace then [] else [' ']) ++ normalizeChars 0 true rest := by
  rw [normalizeChars, if_pos hc]

theorem normalizeChars_uuid {u : List Char} (hu : isUuid u = true) (rest : List Char) :
    normalizeChars 0 prevSpace (u ++ rest) = placeholderUuid ++ normalizeChars 0 false rest := by
  have hlen := isUuid_length hu
  obtain ⟨c, u, rfl⟩ := List.exists_cons_of_length_pos (l := u) (by omega)
  have hc := isWhitespace_eq_false (isUuid_head hu)
  have htake : (c :: (u ++ rest)).take 36 = c :: u := by
    rw [← List.cons_append, ← hlen, List.take_left]
  have hskip : normalizeChars u.length false (u ++ rest) = normalizeChars 0 false rest :=
    normalizeChars_skip u rest
  rw [List.length_cons] at hlen
  rw [show u.length = 35 by omega] at hskip
  rw [List.cons_append, normalizeChars, if_neg (by simp [hc]), htake, if_pos hu, hskip]

theorem normalizeChars_token {token rest : List Char} (h : TokenAt token rest) :
    normalizeChars 0 prevSpace (token ++ rest) =
      normalizeToken token ++ normalizeChars 0 false rest := by
  obtain ⟨hne, halnum, hapart, hnot⟩ := h
  have htake : (token ++ rest).takeWhile Char.isAlphanum = token := by
    rw [List.takeWhile_append_of_pos halnum]
    cases rest with
    | nil => simp
    | cons d rest => rw [List.takeWhile_cons_of_neg (by simp [hapart d rfl]), List.append_nil]
  obtain ⟨c, token, rfl⟩ := List.exists_cons_of_ne_nil hne
  have hc := halnum c List.mem_cons_self
  rw [List.cons_append] at hnot htake ⊢
  rw [normalizeChars, if_neg (by simp [isWhitespace_eq_false hc]), hnot, if_neg (by decide),
    if_pos hc]
  dsimp only
  rw [htake, List.length_cons, Nat.add_sub_cancel, normalizeChars_skip]

theorem not_isUuid_of_not_isAlphanum {c : Char} (hc : c.isAlphanum = false) (rest : List Char) :
    isUuid ((c :: rest).take 36) = false := by
  by_contra h
  rw [Bool.not_eq_false, List.take_succ_cons] at h
  rw [isUuid_head h] at hc
  cases hc

theorem normalizeChars_other {c : Char} (hspace : isWhitespace c = false)
    (hc : c.isAlphanum = false) (rest : List Char) :
    normalizeChars 0 prevSpace (c :: rest) = c :: normalizeChars 0 false rest := by
  rw [normalizeChars, if_neg (by simp [hspace]), not_isUuid_of_not_isAlphanum hc,
    if_neg (by decide), if_neg (by simp [hc])]

theorem scan_induction {motive : List Char → Prop} (nil : motive [])
    (space : ∀ c rest, isWhitespace c = true → motive rest → motive (c :: rest))
    (uuid : ∀ u rest, isUuid u = true → motive rest → motive (u ++ rest))
    (token : ∀ token rest, TokenAt token rest → motive rest → motive (token ++ rest))
    (other : ∀ c rest, isWhitespace c = false → c.isAlphanum = false → motive rest →
      motive (c :: rest)) (s : List Char) : motive s := by
  induction hn : s.length using Nat.strong_induction_on generalizing s with
  | _ n ih =>
    cases s with
    | nil => exact nil
    | cons c cs =>
      rw [List.length_cons] at hn
      by_cases hspace : isWhitespace c = true
      · exact space c cs hspace (ih _ (by omega) cs rfl)
      by_cases hu : isUuid ((c :: cs).take 36) = true
      · have hrest := ih ((c :: cs).drop 36).length (by simp; omega) _ rfl
        have := uuid _ _ hu hrest
        rwa [List.take_append_drop] at this
      by_cases hc : c.isAlphanum = true
      · have hsplit := List.takeWhile_append_dropWhile (p := Char.isAlphanum) (l := c :: cs)
        have hdrop : ((c :: cs).dropWhile Char.isAlphanum).length < n := by
          rw [List.dropWhile_cons_of_pos hc]
          have := (List.dropWhile_sublist Char.isAlphanum (l := cs)).length_le
          omega
        have htoken : TokenAt ((c :: cs).takeWhile Char.isAlphanum)
            ((c :: cs).dropWhile Char.isAlphanum) := by
          refine ⟨by simp [hc], fun d hd => List.mem_takeWhile_imp hd, fun d hd => ?_, ?_⟩
          · have hne : (c :: cs).dropWhile Char.isAlphanum ≠ [] := by
              rintro hnil
              rw [hnil] at hd
              cases hd
            have hhead := List.head_dropWhile_not Char.isAlphanum hne
            rw [List.head?_eq_some_head hne] at hd
            cases hd
            exact hhead
          · rw [hsplit]
            exact Bool.eq_false_of_not_eq_true hu
        have := token _ _ htoken (ih _ hdrop _ rfl)
        rwa [hsplit] at this
      · exact other c cs (Bool.eq_false_of_not_eq_true hspace) (Bool.eq_false_of_not_eq_true hc)
          (ih _ (by omega) cs rfl)

end Soika
