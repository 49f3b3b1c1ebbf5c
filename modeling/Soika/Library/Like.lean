import Mathlib.Data.List.Infix
import Mathlib.Data.List.Forall2

/-! # Patterns with wildcards

A pattern of letters, wildcards for one letter and wildcards for a text. Two letters need only be the
same in some sense, such as up to case.
-/

namespace Like

variable {α : Type*}

inductive Token (α : Type*) where
  | lit (a : α)
  | one
  | many

def Token.sample (x : α) : Token α → α
  | lit a => a
  | one => x
  | many => x

variable (same : α → α → Bool)

/-- The pattern accepts the whole text. -/
def accepts : List (Token α) → List α → Bool
  | [], s => s.isEmpty
  | .lit a :: p, s =>
    match s with
    | [] => false
    | c :: s => same a c && accepts p s
  | .one :: p, s =>
    match s with
    | [] => false
    | _ :: s => accepts p s
  | .many :: p, s => s.tails.any (accepts p)

def Contains (q s : List α) : Prop :=
  ∃ before part after, s = before ++ part ++ after ∧
    List.Forall₂ (fun a c => same a c = true) q part

variable {same}

theorem accepts_many {p : List (Token α)} {s : List α} :
    accepts same (.many :: p) s = true ↔ ∃ before after, s = before ++ after ∧
      accepts same p after = true := by
  simp only [accepts, List.any_eq_true, List.mem_tails]
  constructor
  · rintro ⟨after, ⟨before, h⟩, hp⟩
    exact ⟨before, after, h.symm, hp⟩
  · rintro ⟨before, after, rfl, hp⟩
    exact ⟨after, List.suffix_append before after, hp⟩

theorem accepts_lits {q : List α} {p : List (Token α)} {s : List α} :
    accepts same (q.map .lit ++ p) s = true ↔ ∃ part after, s = part ++ after ∧
      List.Forall₂ (fun a c => same a c = true) q part ∧ accepts same p after = true := by
  induction q generalizing s with
  | nil =>
    constructor
    · intro h
      exact ⟨[], s, rfl, .nil, h⟩
    · rintro ⟨part, after, rfl, hq, hp⟩
      cases hq
      exact hp
  | cons a q ih =>
    cases s with
    | nil =>
      refine iff_of_false (by simp [accepts]) ?_
      rintro ⟨part, after, hs, hq, -⟩
      cases hq
      cases hs
    | cons c s =>
      rw [List.map_cons, List.cons_append, accepts, Bool.and_eq_true, ih]
      constructor
      · rintro ⟨hc, part, after, rfl, hq, hp⟩
        exact ⟨c :: part, after, rfl, .cons hc hq, hp⟩
      · rintro ⟨part, after, hs, hq, hp⟩
        cases hq with
        | cons hc hq =>
          obtain ⟨rfl, rfl⟩ := List.cons.inj hs
          exact ⟨hc, _, after, rfl, hq, hp⟩

/-- Letters between two wildcards for a text: the text contains them. -/
theorem accepts_contains {q s : List α} :
    accepts same (.many :: (q.map .lit ++ [.many])) s = true ↔ Contains same q s := by
  rw [accepts_many]
  constructor
  · rintro ⟨before, rest, rfl, h⟩
    obtain ⟨part, after, rfl, hq, -⟩ := accepts_lits.mp h
    exact ⟨before, part, after, by rw [List.append_assoc], hq⟩
  · rintro ⟨before, part, after, rfl, hq⟩
    refine ⟨before, part ++ after, by rw [List.append_assoc], accepts_lits.mpr ?_⟩
    exact ⟨part, after, rfl, hq, accepts_many.mpr ⟨after, [], by simp, rfl⟩⟩

theorem accepts_append {p p' : List (Token α)} {s s' : List α} (h : accepts same p s = true)
    (h' : accepts same p' s' = true) : accepts same (p ++ p') (s ++ s') = true := by
  induction p generalizing s with
  | nil =>
    obtain rfl := List.isEmpty_iff.mp h
    exact h'
  | cons token p ih =>
    cases token with
    | lit a =>
      cases s with
      | nil => cases h
      | cons c s =>
        rw [accepts, Bool.and_eq_true] at h
        rw [List.cons_append, List.cons_append, accepts, Bool.and_eq_true]
        exact ⟨h.1, ih h.2⟩
    | one =>
      cases s with
      | nil => cases h
      | cons c s => exact ih h
    | many =>
      obtain ⟨before, after, rfl, hp⟩ := accepts_many.mp h
      rw [List.cons_append, List.append_assoc, accepts_many]
      exact ⟨before, after ++ s', rfl, ih hp⟩

theorem accepts_sample (hsame : ∀ a, same a a = true) (x : α) (p : List (Token α)) :
    accepts same p (p.map (Token.sample x)) = true := by
  induction p with
  | nil => rfl
  | cons token p ih =>
    cases token with
    | lit a =>
      rw [List.map_cons, accepts, Bool.and_eq_true]
      exact ⟨hsame a, ih⟩
    | one => exact ih
    | many => exact accepts_many.mpr ⟨[x], _, rfl, ih⟩

theorem Contains.length_le {q s : List α} (h : Contains same q s) : q.length ≤ s.length := by
  obtain ⟨before, part, after, rfl, hq⟩ := h
  have := hq.length_eq
  simp only [List.length_append]
  omega

/-- A text contains one of its own length only when the two are the same. -/
theorem Contains.forall₂ {q s : List α} (h : Contains same q s) (hlen : s.length ≤ q.length) :
    List.Forall₂ (fun a c => same a c = true) q s := by
  obtain ⟨before, part, after, rfl, hq⟩ := h
  have := hq.length_eq
  simp only [List.length_append] at hlen
  obtain rfl := List.eq_nil_of_length_eq_zero (l := before) (by omega)
  obtain rfl := List.eq_nil_of_length_eq_zero (l := after) (by omega)
  simpa using hq

end Like
