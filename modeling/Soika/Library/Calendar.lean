import Mathlib.Data.Nat.Notation
import Mathlib.Data.Int.Notation
import Mathlib.Tactic.IntervalCases

/-! # Instants as text

The proleptic Gregorian calendar and the RFC 3339 text of an instant, counted in
nanoseconds from 1970-01-01T00:00:00Z. A fraction is written with three, six or
nine digits, or not at all. Within the years 0 to 9999 the lexicographic order of
the texts is the order of the instants.
-/

namespace Calendar

/-- `a` is smaller than `b` whatever follows them. -/
def Precedes (a b : List Char) : Prop := ∀ r r' : List Char, a ++ r < b ++ r'

theorem Precedes.append {a b : List Char} (h : Precedes a b) (c d : List Char) :
    Precedes (a ++ c) (b ++ d) := by
  intro r r'
  simpa [List.append_assoc] using h (c ++ r) (d ++ r')

theorem Precedes.cons_of_lt {x y : Char} (h : x < y) (a b : List Char) :
    Precedes (x :: a) (y :: b) := by
  intro r r'
  simp [List.cons_lt_cons_iff, h]

theorem Precedes.cons {a b : List Char} (h : Precedes a b) (x : Char) :
    Precedes (x :: a) (x :: b) := by
  intro r r'
  simp [h r r']

theorem Precedes.append_left {a b : List Char} (h : Precedes a b) (c : List Char) :
    Precedes (c ++ a) (c ++ b) := by
  induction c with
  | nil => exact h
  | cons x c ih => exact ih.cons x

/-- The last `k` decimal digits of `n`, zeros included. -/
def digits : ℕ → ℕ → List Char
  | 0, _ => []
  | k + 1, n => (n / 10 ^ k % 10).digitChar :: digits k n

theorem digitChar_lt {a b : ℕ} (h : a < b) (hb : b < 10) : a.digitChar < b.digitChar := by
  interval_cases b <;> interval_cases a <;> decide

theorem mod_pow_succ_lt {k n m : ℕ} (h : n % 10 ^ (k + 1) < m % 10 ^ (k + 1)) :
    n / 10 ^ k % 10 < m / 10 ^ k % 10 ∨
      n / 10 ^ k % 10 = m / 10 ^ k % 10 ∧ n % 10 ^ k < m % 10 ^ k := by
  rw [Nat.mod_pow_succ, Nat.mod_pow_succ] at h
  rcases Nat.lt_trichotomy (n / 10 ^ k % 10) (m / 10 ^ k % 10) with hlt | heq | hgt
  · exact .inl hlt
  · rw [heq] at h
    exact .inr ⟨heq, by omega⟩
  · have hp : 0 < 10 ^ k := by positivity
    have hn := Nat.mod_lt m hp
    have hmul : 10 ^ k * (m / 10 ^ k % 10 + 1) ≤ 10 ^ k * (n / 10 ^ k % 10) :=
      Nat.mul_le_mul_left _ hgt
    rw [Nat.mul_add] at hmul
    omega

theorem digits_precedes_of_mod (k : ℕ) {n m : ℕ} (h : n % 10 ^ k < m % 10 ^ k) :
    Precedes (digits k n) (digits k m) := by
  induction k with
  | zero => simp [Nat.mod_one] at h
  | succ k ih =>
    rcases mod_pow_succ_lt h with hlt | ⟨heq, hlt⟩
    · exact .cons_of_lt (digitChar_lt hlt (Nat.mod_lt _ (by decide))) _ _
    · simp only [digits, heq]
      exact (ih hlt).cons _

theorem digits_precedes {k n m : ℕ} (h : n < m) (hm : m < 10 ^ k) :
    Precedes (digits k n) (digits k m) :=
  digits_precedes_of_mod k (by rwa [Nat.mod_eq_of_lt hm, Nat.mod_eq_of_lt (h.trans hm)])

/-- Days from 0001-01-01 to the first day of year `y`. -/
def daysBeforeYear (y : ℤ) : ℤ := 365 * (y - 1) + (y - 1) / 4 - (y - 1) / 100 + (y - 1) / 400

def isLeap (y : ℤ) : Bool := y % 4 = 0 && (y % 100 ≠ 0 || y % 400 = 0)

/-- The year of a day counted from 0001-01-01: the mean year length misses it by one at most. -/
def yearOfDay (d : ℤ) : ℤ :=
  let y := 400 * d / 146097 + 1
  if d < daysBeforeYear y then y - 1 else if daysBeforeYear (y + 1) ≤ d then y + 1 else y

theorem daysBeforeYear_succ (y : ℤ) :
    daysBeforeYear (y + 1) = daysBeforeYear y + if isLeap y then 366 else 365 := by
  have h4 : y / 4 = (y - 1) / 4 + if y % 4 = 0 then 1 else 0 := by split <;> omega
  have h100 : y / 100 = (y - 1) / 100 + if y % 100 = 0 then 1 else 0 := by split <;> omega
  have h400 : y / 400 = (y - 1) / 400 + if y % 400 = 0 then 1 else 0 := by split <;> omega
  simp only [daysBeforeYear, isLeap, show y + 1 - 1 = y by omega, h4, h100, h400]
  by_cases c4 : y % 4 = 0 <;> by_cases c100 : y % 100 = 0 <;> by_cases c400 : y % 400 = 0 <;>
    simp [c4, c100, c400] <;> omega

theorem daysBeforeYear_mono {y z : ℤ} (h : y ≤ z) : daysBeforeYear y ≤ daysBeforeYear z := by
  unfold daysBeforeYear; omega

theorem yearOfDay_spec (d : ℤ) :
    daysBeforeYear (yearOfDay d) ≤ d ∧ d < daysBeforeYear (yearOfDay d + 1) := by
  simp only [yearOfDay]
  split
  · rename_i h
    refine ⟨?_, by simpa using h⟩
    unfold daysBeforeYear; omega
  · split
    · rename_i h
      refine ⟨h, ?_⟩
      unfold daysBeforeYear; omega
    · omega

theorem yearOfDay_mono {d e : ℤ} (h : d ≤ e) : yearOfDay d ≤ yearOfDay e := by
  by_contra hlt
  have h₁ := (yearOfDay_spec d).1
  have h₂ := (yearOfDay_spec e).2
  have h₃ := daysBeforeYear_mono (show yearOfDay e + 1 ≤ yearOfDay d by omega)
  omega

def dayOfYear (d : ℤ) : ℕ := (d - daysBeforeYear (yearOfDay d)).toNat

theorem dayOfYear_lt (d : ℤ) : dayOfYear d < if isLeap (yearOfDay d) then 366 else 365 := by
  have h := yearOfDay_spec d
  rw [daysBeforeYear_succ] at h
  unfold dayOfYear
  split at h <;> simp_all <;> omega

def monthLengths (leap : Bool) : List ℕ :=
  [31, if leap then 29 else 28, 31, 30, 31, 30, 31, 31, 30, 31, 30, 31]

def monthDay : List ℕ → ℕ → ℕ × ℕ
  | [], n => (1, n + 1)
  | len :: rest, n =>
    if n < len then (1, n + 1) else ((monthDay rest (n - len)).1 + 1, (monthDay rest (n - len)).2)

theorem monthDay_bounds {lens : List ℕ} {n : ℕ} (h : n < lens.sum) :
    (monthDay lens n).1 ≤ lens.length ∧ ∃ len ∈ lens, (monthDay lens n).2 ≤ len := by
  induction lens generalizing n with
  | nil => simp at h
  | cons len rest ih =>
    simp only [List.sum_cons] at h
    by_cases hn : n < len
    · simp only [monthDay, hn, if_true]
      exact ⟨by simp, len, by simp, hn⟩
    · obtain ⟨hm, l, hl, hd⟩ := ih (n := n - len) (by omega)
      simp only [monthDay, hn, if_false]
      exact ⟨by simpa using hm, l, by simp [hl], hd⟩

theorem monthDay_lt (lens : List ℕ) {n m : ℕ} (h : n < m) :
    (monthDay lens n).1 < (monthDay lens m).1 ∨
      (monthDay lens n).1 = (monthDay lens m).1 ∧ (monthDay lens n).2 < (monthDay lens m).2 := by
  induction lens generalizing n m with
  | nil => exact .inr ⟨rfl, by simpa [monthDay] using h⟩
  | cons len rest ih =>
    have hpos (k : ℕ) : 0 < (monthDay rest k).1 := by
      cases rest with
      | nil => simp [monthDay]
      | cons l rest => simp only [monthDay]; split <;> simp
    by_cases hm : m < len
    · simp [monthDay, hm, h.trans hm, h]
    · by_cases hn : n < len
      · simp [monthDay, hm, hn, hpos]
      · simpa [monthDay, hm, hn] using ih (n := n - len) (m := m - len) (by omega)

theorem monthDay_dayOfYear_bounds (d : ℤ) :
    (monthDay (monthLengths (isLeap (yearOfDay d))) (dayOfYear d)).1 < 100 ∧
      (monthDay (monthLengths (isLeap (yearOfDay d))) (dayOfYear d)).2 < 100 := by
  have hlt := dayOfYear_lt d
  generalize isLeap (yearOfDay d) = leap at *
  have hsum : dayOfYear d < (monthLengths leap).sum := by
    cases leap <;> simpa [monthLengths] using hlt
  obtain ⟨hm, len, hlen, hd⟩ := monthDay_bounds hsum
  have hlen31 : len ≤ 31 := by
    cases leap <;> simp [monthLengths] at hlen <;> omega
  have hlen12 : (monthLengths leap).length = 12 := rfl
  omega

/-- Year of the date: four digits, or a sign and at least four digits. -/
def yearText (y : ℤ) : List Char :=
  if 0 ≤ y ∧ y ≤ 9999 then digits 4 y.toNat
  else (if y < 0 then '-' else '+') :: (Nat.toDigits 10 y.natAbs).leftpad 4 '0'

def dateText (d : ℤ) : List Char :=
  let md := monthDay (monthLengths (isLeap (yearOfDay d))) (dayOfYear d)
  yearText (yearOfDay d) ++ '-' :: (digits 2 md.1 ++ '-' :: digits 2 md.2)

theorem dateText_precedes {d e : ℤ} (h : d < e) (hd : 0 ≤ yearOfDay d) (he : yearOfDay e ≤ 9999) :
    Precedes (dateText d) (dateText e) := by
  have hle := yearOfDay_mono h.le
  have bd := monthDay_dayOfYear_bounds d
  have be := monthDay_dayOfYear_bounds e
  have hdy : 0 ≤ yearOfDay d ∧ yearOfDay d ≤ 9999 := by omega
  have hey : 0 ≤ yearOfDay e ∧ yearOfDay e ≤ 9999 := by omega
  simp only [dateText, yearText, hdy, hey, and_self, if_true]
  rcases hle.lt_or_eq with hlt | heq
  · exact (digits_precedes (by omega) (by omega)).append _ _
  · have hdoy : dayOfYear d < dayOfYear e := by
      have h₁ := (yearOfDay_spec d).1
      have h₂ := (yearOfDay_spec e).1
      unfold dayOfYear
      rw [heq] at h₁ ⊢
      omega
    rw [heq] at bd ⊢
    apply Precedes.append_left
    apply Precedes.cons
    rcases monthDay_lt (monthLengths (isLeap (yearOfDay e))) hdoy with hm | ⟨hm, hday⟩
    · exact (digits_precedes hm be.1).append _ _
    · rw [hm]
      exact ((digits_precedes hday be.2).cons _).append_left _

def fractionWidth (ns : ℕ) : ℕ :=
  if ns = 0 then 0 else if ns % 1000000 = 0 then 3 else if ns % 1000 = 0 then 6 else 9

def fractionText (ns : ℕ) : List Char :=
  if fractionWidth ns = 0 then []
  else '.' :: digits (fractionWidth ns) (ns / 10 ^ (9 - fractionWidth ns))

theorem fractionWidth_le (ns : ℕ) : fractionWidth ns ≤ 9 := by
  unfold fractionWidth; split_ifs <;> omega

theorem fractionWidth_eq_zero {ns : ℕ} : fractionWidth ns = 0 ↔ ns = 0 := by
  unfold fractionWidth; split_ifs <;> simp_all

theorem pow_fractionWidth_dvd (ns : ℕ) : 10 ^ (9 - fractionWidth ns) ∣ ns := by
  unfold fractionWidth
  split_ifs with h₀ h₆ h₃
  · simp [h₀]
  · exact Nat.dvd_of_mod_eq_zero h₆
  · exact Nat.dvd_of_mod_eq_zero h₃
  · simp

theorem digits_add (k j n : ℕ) : digits (k + j) n = digits k (n / 10 ^ j) ++ digits j n := by
  induction k with
  | zero => simp [digits]
  | succ k ih =>
    rw [show k + 1 + j = k + j + 1 by omega]
    simp only [digits, ih, List.cons_append, Nat.div_div_eq_div_mul, ← pow_add, Nat.add_comm j k]

theorem plus_lt_digits {j : ℕ} (hj : j ≠ 0) (n : ℕ) (r r' : List Char) :
    '+' :: r < digits j n ++ r' := by
  obtain ⟨j, rfl⟩ := Nat.exists_eq_succ_of_ne_zero hj
  have h : '+' < (n / 10 ^ j % 10).digitChar := by
    have hlt : n / 10 ^ j % 10 < 10 := Nat.mod_lt _ (by decide)
    generalize n / 10 ^ j % 10 = d at hlt
    interval_cases d <;> decide
  simp [digits, List.cons_lt_cons_iff, h]

theorem fractionText_lt {a b : ℕ} (h : a < b) (hb : b < 1000000000) (r r' : List Char) :
    fractionText a ++ '+' :: r < fractionText b ++ '+' :: r' := by
  have hwb : fractionWidth b ≠ 0 := by rw [Ne, fractionWidth_eq_zero]; omega
  by_cases hwa : fractionWidth a = 0
  · simp [fractionText, hwa, hwb, List.cons_lt_cons_iff]
  · simp only [fractionText, hwa, hwb, if_false, List.cons_append, List.cons_lt_cons_self]
    have la := fractionWidth_le a
    have lb := fractionWidth_le b
    have da := pow_fractionWidth_dvd a
    have db := pow_fractionWidth_dvd b
    generalize fractionWidth a = wa at *
    generalize fractionWidth b = wb at *
    have bound (w : ℕ) (hw : w ≤ 9) : b / 10 ^ (9 - w) < 10 ^ w := by
      rw [Nat.div_lt_iff_lt_mul (by positivity), ← pow_add, show w + (9 - w) = 9 by omega]
      exact hb
    rcases Nat.le_total wa wb with hle | hle
    · obtain ⟨j, rfl⟩ := Nat.exists_eq_add_of_le hle
      rw [digits_add, Nat.div_div_eq_div_mul, ← pow_add, show 9 - (wa + j) + j = 9 - wa by omega]
      rcases (Nat.div_le_div_right h.le : a / 10 ^ (9 - wa) ≤ b / 10 ^ (9 - wa)).lt_or_eq
        with hlt | heq
      · simpa [List.append_assoc] using (digits_precedes hlt (bound wa la)).append [] _ _ _
      · have hj : j ≠ 0 := by
          rintro rfl
          exact h.ne ((Nat.div_left_inj da db).mp heq)
        rw [heq, List.append_assoc]
        exact List.append_left_lt (plus_lt_digits hj _ _ _)
    · obtain ⟨j, rfl⟩ := Nat.exists_eq_add_of_le hle
      have hlt : a / 10 ^ (9 - wb) < b / 10 ^ (9 - wb) :=
        Nat.div_lt_div_of_lt_of_dvd db h
      rw [digits_add, Nat.div_div_eq_div_mul, ← pow_add, show 9 - (wb + j) + j = 9 - wb by omega]
      simpa [List.append_assoc] using (digits_precedes hlt (bound wb lb)).append _ [] _ _

/-- Time of day from a number of seconds since midnight. -/
def clockText (s : ℕ) : List Char :=
  digits 2 (s / 3600) ++ ':' :: (digits 2 (s / 60 % 60) ++ ':' :: digits 2 (s % 60))

theorem clockText_precedes {s t : ℕ} (h : s < t) (ht : t < 86400) :
    Precedes (clockText s) (clockText t) := by
  unfold clockText
  rcases (Nat.div_le_div_right h.le : s / 3600 ≤ t / 3600).lt_or_eq with hlt | heq
  · exact (digits_precedes hlt (by omega)).append _ _
  · rw [heq]
    refine .append_left (.cons ?_ _) _
    rcases Nat.lt_or_ge (s / 60 % 60) (t / 60 % 60) with hlt | hge
    · exact (digits_precedes hlt (by omega)).append _ _
    · rw [show s / 60 % 60 = t / 60 % 60 by omega]
      exact ((digits_precedes (by omega) (by omega)).cons _).append_left _

def dayOf (t : ℤ) : ℤ := t / 86400000000000 + 719162

def yearOf (t : ℤ) : ℤ := yearOfDay (dayOf t)

/-- The text of an instant in nanoseconds since 1970-01-01T00:00:00Z. -/
def rfc3339 (t : ℤ) : List Char :=
  dateText (dayOf t) ++ 'T' :: (clockText (t / 1000000000 % 86400).toNat ++
    (fractionText (t % 1000000000).toNat ++ ['+', '0', '0', ':', '0', '0']))

/-- The year has four digits, so the text has no sign. -/
def FourDigitYear (t : ℤ) : Prop := 0 ≤ yearOf t ∧ yearOf t ≤ 9999

instance (t : ℤ) : Decidable (FourDigitYear t) := inferInstanceAs (Decidable (_ ∧ _))

theorem yearOf_mono {t u : ℤ} (h : t ≤ u) : yearOf t ≤ yearOf u :=
  yearOfDay_mono (by unfold dayOf; omega)

theorem FourDigitYear.of_between {t u v : ℤ} (ht : FourDigitYear t) (hv : FourDigitYear v)
    (htu : t ≤ u) (huv : u ≤ v) : FourDigitYear u :=
  ⟨ht.1.trans (yearOf_mono htu), (yearOf_mono huv).trans hv.2⟩

theorem rfc3339_lt {t u : ℤ} (h : t < u) (ht : FourDigitYear t) (hu : FourDigitYear u) :
    rfc3339 t < rfc3339 u := by
  unfold rfc3339
  have hday : dayOf t ≤ dayOf u := by unfold dayOf; omega
  rcases hday.lt_or_eq with hlt | heq
  · exact dateText_precedes hlt ht.1 hu.2 _ _
  · rw [heq]
    apply List.append_left_lt
    rw [List.cons_lt_cons_self]
    unfold dayOf at heq
    rcases lt_or_ge (t / 1000000000) (u / 1000000000) with hs | hs
    · exact clockText_precedes (by omega) (by omega) _ _
    · rw [show t / 1000000000 = u / 1000000000 by omega]
      exact List.append_left_lt (fractionText_lt (by omega) (by omega) _ _)

theorem rfc3339_le_iff {t u : ℤ} (ht : FourDigitYear t) (hu : FourDigitYear u) :
    ¬ rfc3339 u < rfc3339 t ↔ t ≤ u := by
  constructor
  · intro h
    by_contra hlt
    exact h (rfc3339_lt (by omega) hu ht)
  · intro h hlt
    rcases h.lt_or_eq with h | rfl
    · exact List.lt_asymm hlt (rfc3339_lt h ht hu)
    · exact List.lt_irrefl _ hlt

example : String.ofList (rfc3339 951782400500000000) = "2000-02-29T00:00:00.500+00:00" := by decide

end Calendar
