import Mathlib.Algebra.GroupWithZero.Nat
import Mathlib.Data.List.Basic

/-! # Slices and spans

What a loop over a slice does with positions: ranges and sums that panic outside
of the slice or of `usize`, and the spans of positions such a loop cuts out of it.
-/

namespace Slices

/-- `isize::MAX` of a 64-bit target. -/
def isizeMax : ℕ := 2 ^ 63 - 1

/-- `usize::MAX` of a 64-bit target. -/
def usizeMax : ℕ := 2 ^ 64 - 1

/-- A slice in memory: no allocation is larger than `isize::MAX` bytes. -/
structure Slice (α : Type*) where
  elems : List α
  length_le : elems.length ≤ isizeMax

/-- `a.checked_add(b)`, and `a + b` where `none` is a panic. -/
def checkedAdd (a b : ℕ) : Option ℕ := if a + b ≤ usizeMax then some (a + b) else none

variable {α : Type*}

/-- `s[a..b]`; `none` is a panic. -/
def range (s : List α) (a b : ℕ) : Option (List α) :=
  if a ≤ b ∧ b ≤ s.length then some ((s.drop a).take (b - a)) else none

theorem checkedAdd_eq_some {a b : ℕ} (h : a + b ≤ usizeMax) : checkedAdd a b = some (a + b) :=
  if_pos h

/-- A sum that reaches into a slice never overflows, nor does the position after it. -/
theorem checkedAdd_of_le {a b n : ℕ} (hn : n ≤ isizeMax) (h : a + b ≤ n + 1) :
    checkedAdd a b = some (a + b) := by
  refine checkedAdd_eq_some ?_
  unfold isizeMax at hn
  unfold usizeMax
  omega

theorem range_eq_some {s : List α} {a b : ℕ} (hab : a ≤ b) (hb : b ≤ s.length) :
    range s a b = some ((s.drop a).take (b - a)) := if_pos ⟨hab, hb⟩

theorem range_length {s : List α} {a : ℕ} (h : a ≤ s.length) :
    range s a s.length = some (s.drop a) := by
  rw [range_eq_some h (Nat.le_refl _), ← List.length_drop, List.take_length]

structure Span where
  start : ℕ
  stop : ℕ
  le : start ≤ stop

namespace Span

/-- The elements at the positions of a span. -/
def of (s : List α) (p : Span) : List α := (s.drop p.start).take (p.stop - p.start)

def InOrder (spans : List Span) : Prop := spans.Pairwise fun p q => p.stop ≤ q.start

/-- Spans that follow each other share no position. -/
theorem InOrder.disjoint {spans : List Span} (h : InOrder spans) :
    spans.Pairwise fun p q => ∀ i, ¬ (p.start ≤ i ∧ i < p.stop ∧ q.start ≤ i ∧ i < q.stop) := by
  refine List.Pairwise.imp ?_ h
  intro p q hle i hi
  omega

theorem of_append (pre body post : List α) (p : Span) (hstart : p.start = pre.length)
    (hstop : p.stop = pre.length + body.length) : p.of (pre ++ (body ++ post)) = body := by
  simp [of, hstart, hstop]

end Span

end Slices
