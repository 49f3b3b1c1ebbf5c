import Mathlib.Data.List.Basic
import Mathlib.Tactic.Common

/-! # Ranks in a list

The rank of an element is how many elements of a list stand strictly before it in an order.
Where no two elements are tied, the rank is the position in the sorted list, so that cutting
the sorted list is a condition on ranks; and ranks only grow with the list.
-/

namespace Ranking

variable {α : Type} (le : α → α → Bool)

/-- `a` stands strictly before `b`. -/
def before (a b : α) : Bool := le a b && !le b a

def rank (l : List α) (a : α) : ℕ := l.countP fun b => before le b a

/-- Of two elements at different places one stands before the other. -/
def Untied (l : List α) : Prop := l.Pairwise fun a b => before le a b ∨ before le b a

theorem before_irrefl (a : α) : before le a a = false := by simp [before]

theorem before_asymm {a b : α} (h : before le a b = true) : before le b a = false := by
  simp only [before, Bool.and_eq_true, Bool.not_eq_true'] at h
  simp [before, h.2]

variable {le}

theorem rank_le_of_sublist {l m : List α} (h : l.Sublist m) (a : α) : rank le l a ≤ rank le m a :=
  h.countP_le

theorem rank_perm {l m : List α} (h : l.Perm m) (a : α) : rank le l a = rank le m a :=
  h.countP_eq _

theorem Untied.perm {l m : List α} (h : l.Perm m) (hl : Untied le l) : Untied le m :=
  (h.pairwise_iff fun hab => hab.symm).mp hl

theorem Untied.sublist {l m : List α} (h : l.Sublist m) (hm : Untied le m) : Untied le l :=
  List.Pairwise.sublist h hm

/-- In a list in strict order the first `k` elements are those of rank less than `k`. -/
theorem mem_take_iff_rank_lt {l : List α} (h : l.Pairwise fun a b => before le a b) (k : ℕ)
    (a : α) : a ∈ l.take k ↔ a ∈ l ∧ rank le l a < k := by
  induction l generalizing k with
  | nil => simp
  | cons b l ih =>
    obtain ⟨hb, hl⟩ := List.pairwise_cons.mp h
    cases k with
    | zero => simp
    | succ k =>
      have hfirst : rank le (b :: l) b = 0 := by
        refine List.countP_eq_zero.mpr fun c hc => ?_
        rcases List.mem_cons.mp hc with rfl | hc
        · simp [before_irrefl]
        · simp [before_asymm le (hb c hc)]
      have hlater {a : α} (ha : a ∈ l) : rank le (b :: l) a = rank le l a + 1 :=
        List.countP_cons_of_pos (hb a ha)
      rw [List.take_succ_cons, List.mem_cons, ih hl]
      constructor
      · rintro (rfl | ⟨ha, hlt⟩)
        · exact ⟨List.mem_cons_self, by omega⟩
        · exact ⟨List.mem_cons_of_mem b ha, by rw [hlater ha]; omega⟩
      · rintro ⟨ha, hlt⟩
        rcases List.mem_cons.mp ha with rfl | ha
        · exact .inl rfl
        · rw [hlater ha] at hlt
          exact .inr ⟨ha, by omega⟩

/-- An order that sorting can use: any two elements compare, and transitively. -/
structure TotalPreorder (le : α → α → Bool) : Prop where
  trans : ∀ a b c, le a b = true → le b c = true → le a c = true
  total : ∀ a b, (le a b || le b a) = true

namespace TotalPreorder

variable {l : List α}

theorem pairwise_mergeSort (hle : TotalPreorder le) (h : Untied le l) :
    (l.mergeSort le).Pairwise fun a b => before le a b := by
  have hsorted := List.pairwise_mergeSort hle.trans hle.total l
  have huntied := h.perm (List.mergeSort_perm l le).symm
  refine (hsorted.and huntied).imp fun ⟨hab, hne⟩ => hne.resolve_right fun hba => ?_
  simp [before, hab] at hba

/-- What is left of the sorted list when its first `keep` elements are kept. -/
theorem mem_take_mergeSort_iff (hle : TotalPreorder le) (h : Untied le l) (keep : ℕ) (a : α) :
    a ∈ (l.mergeSort le).take keep ↔ a ∈ l ∧ rank le l a < keep := by
  rw [mem_take_iff_rank_lt (hle.pairwise_mergeSort h), List.mem_mergeSort,
    rank_perm (List.mergeSort_perm l le)]

theorem mem_window_iff (hle : TotalPreorder le) (h : Untied le l) (keep batch : ℕ) (a : α) :
    a ∈ ((l.mergeSort le).drop keep).take batch ↔
      a ∈ l ∧ keep ≤ rank le l a ∧ rank le l a < keep + batch := by
  have hsorted := hle.pairwise_mergeSort h
  have hsplit : (l.mergeSort le).take keep ++ ((l.mergeSort le).drop keep).take batch =
      (l.mergeSort le).take (keep + batch) := by
    rw [List.take_add]
  have hdisjoint := List.pairwise_append.mp (hsplit ▸ hsorted.sublist (List.take_sublist _ _))
  have hmem : a ∈ (l.mergeSort le).take (keep + batch) ↔
      a ∈ (l.mergeSort le).take keep ∨ a ∈ ((l.mergeSort le).drop keep).take batch := by
    rw [← hsplit, List.mem_append]
  rw [hle.mem_take_mergeSort_iff h, hle.mem_take_mergeSort_iff h] at hmem
  constructor
  · intro ha
    obtain ⟨hal, hlt⟩ := hmem.mpr (.inr ha)
    refine ⟨hal, Nat.le_of_not_lt fun hlow => ?_, hlt⟩
    have hkept := (hle.mem_take_mergeSort_iff h keep a).mpr ⟨hal, hlow⟩
    have := hdisjoint.2.2 a hkept a ha
    rw [before_irrefl] at this
    cases this
  · rintro ⟨hal, hlow, hlt⟩
    exact (hmem.mp ⟨hal, hlt⟩).resolve_left fun hkept => absurd hkept.2 (Nat.not_lt.mpr hlow)

end TotalPreorder

end Ranking
