import Mathlib.Data.List.Basic

/-! # Words joined with a separator

Joining words with a separator letter keeps their letters but not their boundaries:
two joins agree exactly when the words, cut at the separators within them, give the
same pieces.
-/

namespace Separated

variable {α : Type*} [DecidableEq α] (sep : α)

def join (words : List (List α)) : List α := [sep].intercalate words

def pieces (words : List (List α)) : List (List α) := words.flatMap (List.splitOn sep)

theorem splitOn_join {words : List (List α)} (h : words ≠ []) :
    (join sep words).splitOn sep = pieces sep words := by
  unfold join pieces
  induction words with
  | nil => exact absurd rfl h
  | cons w ws ih =>
    cases ws with
    | nil => simp
    | cons v vs =>
      rw [List.intercalate_cons_cons, List.append_assoc, List.singleton_append,
        List.splitOn_append_cons_self, ih (List.cons_ne_nil v vs)]
      rfl

theorem pieces_of_not_mem {words : List (List α)} (h : ∀ w ∈ words, sep ∉ w) :
    pieces sep words = words := by
  unfold pieces
  induction words with
  | nil => rfl
  | cons w ws ih =>
    rw [List.flatMap_cons, List.splitOn_eq_singleton (h w List.mem_cons_self),
      ih fun v hv => h v (List.mem_cons_of_mem w hv)]
    rfl

end Separated
