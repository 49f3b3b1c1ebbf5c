import Soika.Domain.Text
import Soika.Library.Delimited

/-! # Searching finds the first occurrence

What `find` and `contains` answer, in terms of the occurrences of the pattern.
-/

namespace Soika

open Delimited

variable {pat s before after : List Char}

theorem cutText_cons_start {c : Char} (h : pat <+: c :: s) :
    cutText pat (c :: s) = some ([], (c :: s).drop pat.length) := by
  rw [cutText, findText, if_pos (List.isPrefixOf_iff_prefix.mpr h)]
  simp

theorem cutText_cons_later {c : Char} (h : ¬ pat <+: c :: s) :
    cutText pat (c :: s) = (cutText pat s).map fun parts => (c :: parts.1, parts.2) := by
  rw [cutText, findText, if_neg (mt List.isPrefixOf_iff_prefix.mp h), cutText, Option.map_map,
    Option.map_map]
  refine Option.map_congr fun i _ => ?_
  simp [Nat.add_right_comm]

theorem cutText_eq_none (hpat : pat ≠ []) : cutText pat s = none ↔ ¬ pat <:+: s := by
  induction s with
  | nil => simp [cutText, findText, hpat, List.infix_nil]
  | cons c s ih =>
    rw [List.infix_cons_iff]
    by_cases hc : pat <+: c :: s
    · simp [cutText_cons_start hc, hc]
    · simp [cutText_cons_later hc, hc, ih]

theorem cutText_eq_some (hpat : pat ≠ []) :
    cutText pat s = some (before, after) ↔ First pat s before after := by
  have hfirst : ∀ {before after : List Char}, cutText pat s = some (before, after) →
      First pat s before after := by
    intro before after h
    induction s generalizing before after with
    | nil => simp [cutText, findText, hpat] at h
    | cons c s ih =>
      by_cases hc : pat <+: c :: s
      · rw [cutText_cons_start hc] at h
        cases h
        obtain ⟨rest, hrest⟩ := hc
        rw [← hrest, List.drop_left]
        exact .nil pat rest
      · rw [cutText_cons_later hc] at h
        obtain ⟨⟨b, a⟩, hparts, hba⟩ := Option.map_eq_some_iff.mp h
        cases hba
        exact (ih hparts).cons hc
  refine ⟨hfirst, fun h => ?_⟩
  cases hcut : cutText pat s with
  | none => exact absurd h.isInfix ((cutText_eq_none hpat).mp hcut)
  | some parts =>
    obtain ⟨rfl, rfl⟩ := (hfirst hcut).unique h
    rfl

theorem hasText_iff (hpat : pat ≠ []) : hasText pat s = true ↔ pat <:+: s := by
  have hcut : hasText pat s = (cutText pat s).isSome := by simp [hasText, cutText]
  rw [hcut, Option.isSome_iff_ne_none, ne_eq, cutText_eq_none hpat, not_not]

section Chars

variable {c : Char}

theorem singleton_isPrefixOf {d : Char} {cs : List Char} :
    [c].isPrefixOf (d :: cs) = true ↔ c = d := by
  simp

theorem cutAt_char (c : Char) (s : List Char) : cutAt [c] s = s.takeWhile (· ≠ c) := by
  induction s with
  | nil => rfl
  | cons d s ih =>
    by_cases hd : c = d
    · rw [cutAt, findText, if_pos (singleton_isPrefixOf.mpr hd),
        List.takeWhile_cons_of_neg (by simpa using hd.symm)]
      rfl
    · rw [List.takeWhile_cons_of_pos (by simpa using Ne.symm hd), ← ih, cutAt, findText,
        if_neg (mt singleton_isPrefixOf.mp hd), cutAt]
      cases findText [c] s with
      | none => rfl
      | some i => rfl

theorem rfindText_char_of_not_mem (h : c ∉ s) : rfindText [c] s = none := by
  induction s with
  | nil => rfl
  | cons d s ih =>
    obtain ⟨hd, hs⟩ := not_or.mp (mt List.mem_cons.mpr h)
    rw [rfindText, ih hs, if_neg (mt singleton_isPrefixOf.mp hd)]

theorem rfindText_char_append (h : c ∉ after) :
    rfindText [c] (before ++ after) = rfindText [c] before := by
  induction before with
  | nil => exact rfindText_char_of_not_mem h
  | cons d before ih =>
    rw [List.cons_append, rfindText, rfindText, ih]
    simp only [singleton_isPrefixOf]

theorem rfindText_char_last (h : c ∉ after) :
    rfindText [c] (before ++ c :: after) = some before.length := by
  induction before with
  | nil => rw [List.nil_append, rfindText, rfindText_char_of_not_mem h,
      if_pos (singleton_isPrefixOf.mpr rfl), List.length_nil]
  | cons d before ih => rw [List.cons_append, rfindText, ih, List.length_cons]

theorem rfindText_char_lt {i : ℕ} (h : rfindText [c] s = some i) : i < s.length := by
  induction s generalizing i with
  | nil => cases h
  | cons d s ih =>
    rw [rfindText] at h
    rw [List.length_cons]
    cases hs : rfindText [c] s with
    | some j =>
      rw [hs] at h
      cases h
      exact Nat.succ_lt_succ (ih hs)
    | none =>
      simp only [hs] at h
      split at h
      · cases h
        exact Nat.succ_pos _
      · cases h

theorem prefix_of_append {init rest : List Char} (hc : c ∉ rest) :
    init ++ [c] <+: s ++ rest ↔ init ++ [c] <+: s := by
  constructor
  · intro h
    rcases List.prefix_or_prefix_of_prefix h (List.prefix_append s rest) with hs | ⟨t, ht⟩
    · exact hs
    · rw [← ht, List.prefix_append_right_inj] at h
      rcases List.eq_nil_or_concat t with rfl | ⟨t, d, rfl⟩
      · rw [← ht, List.append_nil]
      · rw [List.concat_eq_append, ← List.append_assoc] at ht
        obtain ⟨-, hlast⟩ := List.append_inj' ht rfl
        cases hlast
        exact absurd (h.subset (by simp)) hc
  · intro h
    exact h.trans (List.prefix_append s rest)

end Chars

end Soika
