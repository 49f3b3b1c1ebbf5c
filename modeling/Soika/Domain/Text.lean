import Soika.Domain.Json

/-! # Texts

The operations of `str` on lists of characters: searching for a pattern, cutting at
it, and trimming.
-/

namespace Soika

/-- `str::find` of a pattern: the position of its first occurrence. -/
def findText (pat : List Char) : List Char → Option ℕ
  | [] => if pat.isEmpty then some 0 else none
  | c :: cs =>
    if pat.isPrefixOf (c :: cs) then some 0 else (findText pat cs).map (· + 1)

/-- `str::rfind` of a pattern: the position of its last occurrence. -/
def rfindText (pat : List Char) : List Char → Option ℕ
  | [] => if pat.isEmpty then some 0 else none
  | c :: cs =>
    match rfindText pat cs with
    | some i => some (i + 1)
    | none => if pat.isPrefixOf (c :: cs) then some 0 else none

def cutAt (pat s : List Char) : List Char :=
  match findText pat s with
  | some i => s.take i
  | none => s

/-- `str::strip_prefix`, or the text itself. -/
def stripPrefix (pat s : List Char) : List Char :=
  if pat.isPrefixOf s then s.drop pat.length else s

/-- `str::trim` on characters. -/
def trimChars (s : List Char) : List Char :=
  ((s.dropWhile isWhitespace).reverse.dropWhile isWhitespace).reverse

/-- The text before the first occurrence of a pattern, and what follows the pattern. -/
def cutText (pat s : List Char) : Option (List Char × List Char) :=
  (findText pat s).map fun i => (s.take i, s.drop (i + pat.length))

/-- `str::contains` of a pattern. -/
def hasText (pat s : List Char) : Bool := (findText pat s).isSome

theorem findText_le {pat s : List Char} {i : ℕ} (h : findText pat s = some i) :
    i + pat.length ≤ s.length := by
  induction s generalizing i with
  | nil =>
    rw [findText] at h
    split at h
    · rename_i hp
      cases h
      simp [List.isEmpty_iff.mp hp]
    · cases h
  | cons c cs ih =>
    rw [findText] at h
    split at h
    · rename_i hp
      cases h
      simpa using (List.isPrefixOf_iff_prefix.mp hp).length_le
    · obtain ⟨j, hj, rfl⟩ := Option.map_eq_some_iff.mp h
      have := ih hj
      rw [List.length_cons]
      omega

theorem cutText_length {pat s before after : List Char} (h : cutText pat s = some (before, after)) :
    before.length + pat.length + after.length = s.length := by
  obtain ⟨i, hi, he⟩ := Option.map_eq_some_iff.mp h
  obtain ⟨rfl, rfl⟩ := Prod.mk.inj he
  have := findText_le hi
  rw [List.length_take, List.length_drop]
  omega

end Soika
