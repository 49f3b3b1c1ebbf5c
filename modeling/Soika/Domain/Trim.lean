import Mathlib.Data.List.DropRight
import Soika.Domain.Text

/-! # Trimming

What is left of a text when the whitespace at its ends is taken away.
-/

namespace Soika

theorem isDigit_iff {c : Char} : c.isDigit = true ↔ 48 ≤ c.toNat ∧ c.toNat ≤ 57 := by
  simp only [Char.isDigit, Bool.and_eq_true, decide_eq_true_eq, ge_iff_le, UInt32.le_iff_toNat_le]
  exact Iff.rfl

theorem isUpper_iff {c : Char} : c.isUpper = true ↔ 65 ≤ c.toNat ∧ c.toNat ≤ 90 :=
  decide_eq_true_iff

theorem isLower_iff {c : Char} : c.isLower = true ↔ 97 ≤ c.toNat ∧ c.toNat ≤ 122 :=
  (Bool.and_eq_true_iff).trans (and_congr decide_eq_true_iff decide_eq_true_iff)

theorem isAlpha_iff {c : Char} : c.isAlpha = true ↔
    (65 ≤ c.toNat ∧ c.toNat ≤ 90) ∨ (97 ≤ c.toNat ∧ c.toNat ≤ 122) :=
  (Bool.or_eq_true _ _ ▸ Iff.rfl : c.isAlpha = true ↔ _).trans (or_congr isUpper_iff isLower_iff)

theorem isAlphanum_iff {c : Char} :
    c.isAlphanum = true ↔ c.isAlpha = true ∨ c.isDigit = true := by
  rw [Char.isAlphanum, Bool.or_eq_true]

theorem isWhitespace_eq_false {c : Char} (h : c.isAlphanum = true) : isWhitespace c = false := by
  rw [isAlphanum_iff, isAlpha_iff, isDigit_iff] at h
  simp only [isWhitespace, Bool.or_eq_false_iff, Bool.and_eq_false_iff, decide_eq_false_iff_not]
  omega

theorem trimChars_eq (s : List Char) :
    trimChars s = (s.dropWhile isWhitespace).rdropWhile isWhitespace := rfl

theorem trimChars_head {s : List Char} : ∀ c ∈ (trimChars s).head?, isWhitespace c = false := by
  intro c hc
  obtain ⟨rest, hrest⟩ := List.rdropWhile_prefix isWhitespace (l := s.dropWhile isWhitespace)
  obtain ⟨cs, hcs⟩ := List.head?_eq_some_iff.mp hc
  rw [trimChars_eq] at hcs
  have hhead : (s.dropWhile isWhitespace).head? = some c := by
    rw [← hrest, hcs]
    rfl
  have hne : s.dropWhile isWhitespace ≠ [] := by
    intro hnil
    rw [hnil] at hhead
    cases hhead
  have hnot := List.head_dropWhile_not isWhitespace hne
  rw [List.head?_eq_some_head hne] at hhead
  cases hhead
  exact hnot

theorem trimChars_getLast {s : List Char} :
    ∀ c ∈ (trimChars s).getLast?, isWhitespace c = false := by
  intro c hc
  have hne : trimChars s ≠ [] := by
    intro hnil
    rw [hnil] at hc
    cases hc
  have hlast := List.rdropWhile_last_not isWhitespace (s.dropWhile isWhitespace) hne
  rw [List.getLast?_eq_some_getLast hne] at hc
  cases hc
  exact Bool.eq_false_iff.mpr hlast

theorem trimChars_of_ends {s : List Char} (hhead : ∀ c ∈ s.head?, isWhitespace c = false)
    (hlast : ∀ c ∈ s.getLast?, isWhitespace c = false) : trimChars s = s := by
  have hdrop : s.dropWhile isWhitespace = s := by
    cases s with
    | nil => rfl
    | cons c s => exact List.dropWhile_cons_of_neg (by simp [hhead c rfl])
  rw [trimChars_eq, hdrop, List.rdropWhile_eq_self_iff]
  intro hne
  rw [hlast _ (List.getLast?_eq_some_getLast hne)]
  decide

/-- A part that neither starts nor ends with whitespace keeps its place when a text is trimmed. -/
theorem trimChars_append {before part after : List Char} (hne : part ≠ [])
    (hpart : isWhitespace (part.head hne) = false ∧ isWhitespace (part.getLast hne) = false) :
    trimChars (before ++ part ++ after) =
      before.dropWhile isWhitespace ++ part ++ after.rdropWhile isWhitespace := by
  have hdrop : ∀ {s : List Char} (hs : s ≠ []), isWhitespace (s.head hs) = false →
      ∀ x y, (x ++ (s ++ y)).dropWhile isWhitespace = x.dropWhile isWhitespace ++ (s ++ y) := by
    intro s hs hhead x y
    obtain ⟨c, s, rfl⟩ := List.exists_cons_of_ne_nil hs
    have hstay : (c :: s ++ y).dropWhile isWhitespace = c :: s ++ y :=
      List.dropWhile_cons_of_neg (by simpa using hhead)
    rw [List.dropWhile_append]
    split
    · rename_i hnil
      rw [hstay, List.isEmpty_iff.mp hnil, List.nil_append]
    · rfl
  have hlast : isWhitespace (part.reverse.head (by simpa using hne)) = false := by
    rw [List.head_reverse]
    exact hpart.2
  rw [trimChars, List.append_assoc, hdrop hne hpart.1, List.reverse_append, List.reverse_append,
    List.append_assoc, hdrop (by simpa using hne) hlast]
  simp [List.rdropWhile]

/-- Whitespace around a text does not change what is left of it. -/
theorem trimChars_pad {before after : List Char} (hbefore : ∀ c ∈ before, isWhitespace c = true)
    (hafter : ∀ c ∈ after, isWhitespace c = true) (s : List Char) :
    trimChars (before ++ s ++ after) = trimChars s := by
  have hright : ∀ x : List Char, (x ++ after).rdropWhile isWhitespace = x.rdropWhile isWhitespace := by
    intro x
    rw [List.rdropWhile, List.reverse_append,
      List.dropWhile_append_of_pos (by simpa using hafter)]
    rfl
  rw [trimChars_eq, trimChars_eq, List.append_assoc, List.dropWhile_append_of_pos hbefore,
    List.dropWhile_append]
  split
  · rename_i hnil
    rw [List.isEmpty_iff.mp hnil, List.dropWhile_eq_nil_iff.mpr hafter]
  · exact hright _

theorem trimChars_dropWhile (s : List Char) :
    trimChars (s.dropWhile isWhitespace) = trimChars s := by
  have hblank : ∀ c ∈ s.takeWhile isWhitespace, isWhitespace c = true :=
    fun c hc => List.mem_takeWhile_imp hc
  have hpad := trimChars_pad hblank (List.forall_mem_nil _) (s.dropWhile isWhitespace)
  rw [List.append_nil, List.takeWhile_append_dropWhile] at hpad
  exact hpad.symm

theorem trimChars_rdropWhile (s : List Char) :
    trimChars (s.rdropWhile isWhitespace) = trimChars s := by
  have hsplit : s = s.rdropWhile isWhitespace ++ s.rtakeWhile isWhitespace := by
    rw [List.rdropWhile, List.rtakeWhile, ← List.reverse_append, List.takeWhile_append_dropWhile,
      List.reverse_reverse]
  have hblank : ∀ c ∈ s.rtakeWhile isWhitespace, isWhitespace c = true :=
    fun c hc => List.mem_rtakeWhile_imp hc
  have hpad := trimChars_pad (List.forall_mem_nil _) hblank (s.rdropWhile isWhitespace)
  rw [List.nil_append, ← hsplit] at hpad
  exact hpad.symm

end Soika
