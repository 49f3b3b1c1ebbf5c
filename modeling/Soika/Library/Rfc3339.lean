import Mathlib.Data.List.Induction
import Mathlib.Data.List.TakeWhile
import Mathlib.Tactic.Ring
import Soika.Library.Calendar

/-! # Reading instants from text

A reader for RFC 3339 date-times and its round trip with the printer: a text is read back
exactly when the year of its instant has four digits.
-/

namespace Calendar

def readNumber (s : List Char) : ℕ := s.foldl (fun n c => n * 10 + (c.toNat - '0'.toNat)) 0

/-- A number of exactly `k` digits, and what follows it. -/
def readDigits (k : ℕ) (s : List Char) : Option (ℕ × List Char) :=
  if (s.take k).length = k ∧ (s.take k).all Char.isDigit then some (readNumber (s.take k), s.drop k)
  else none

def expect (p : Char → Bool) : List Char → Option (List Char)
  | c :: s => if p c then some s else none
  | [] => none

/-- The nanoseconds of a fraction of a second, and what follows it; digits after the ninth
are ignored. -/
def readFraction : List Char → Option (ℕ × List Char)
  | '.' :: s =>
    let ds := (s.takeWhile Char.isDigit).take 9
    if ds = [] then none else some (readNumber ds * 10 ^ (9 - ds.length), s.dropWhile Char.isDigit)
  | s => some (0, s)

def readOffset : List Char → Option ℤ
  | ['Z'] | ['z'] => some 0
  | sign :: s => do
    let negative ← if sign = '+' then some false
      else if sign = '-' ∨ sign = '\u2212' then some true else none
    let (hour, s) ← readDigits 2 s
    let s ← expect (· = ':') s
    let (minute, s) ← readDigits 2 s
    if s = [] ∧ hour < 24 ∧ minute < 60 then
      let seconds : ℤ := hour * 3600 + minute * 60
      some (if negative then -seconds else seconds)
    else none
  | [] => none

def dayNumber (year month day : ℕ) : Option ℤ :=
  let lens := monthLengths (isLeap year)
  match month with
  | 0 => none
  | month + 1 =>
    match lens[month]? with
    | none => none
    | some len =>
      if 0 < day ∧ day ≤ len then
        some (daysBeforeYear year + (lens.take month).sum + (day - 1 : ℕ))
      else none

/-- The nanoseconds since 1970-01-01T00:00:00Z of an RFC 3339 date-time. A leap second is
read as the second after it. -/
def parseRfc3339 (s : List Char) : Option ℤ := do
  let (year, s) ← readDigits 4 s
  let s ← expect (· = '-') s
  let (month, s) ← readDigits 2 s
  let s ← expect (· = '-') s
  let (day, s) ← readDigits 2 s
  let s ← expect (fun c => c = 'T' ∨ c = 't' ∨ c = ' ') s
  let (hour, s) ← readDigits 2 s
  let s ← expect (· = ':') s
  let (minute, s) ← readDigits 2 s
  let s ← expect (· = ':') s
  let (second, s) ← readDigits 2 s
  let (nanos, s) ← readFraction s
  let offset ← readOffset s
  let d ← dayNumber year month day
  if hour < 24 ∧ minute < 60 ∧ second ≤ 60 then
    some (((d - 719162) * 86400 + hour * 3600 + minute * 60 + second - offset) * 1000000000 + nanos)
  else none

theorem length_digits (k n : ℕ) : (digits k n).length = k := by
  induction k with
  | zero => rfl
  | succ k ih => rw [digits, List.length_cons, ih]

theorem isDigit_digitChar {n : ℕ} (h : n < 10) : n.digitChar.isDigit = true := by
  interval_cases n <;> decide

theorem digitChar_toNat {n : ℕ} (h : n < 10) : n.digitChar.toNat - '0'.toNat = n := by
  interval_cases n <;> decide

theorem all_digits (k n : ℕ) : (digits k n).all Char.isDigit = true := by
  induction k with
  | zero => rfl
  | succ k ih =>
    rw [digits, List.all_cons, ih, isDigit_digitChar (Nat.mod_lt _ (by decide))]
    rfl

theorem readNumber_append (s t : List Char) :
    readNumber (s ++ t) = readNumber s * 10 ^ t.length + readNumber t := by
  induction t using List.reverseRecOn generalizing s with
  | nil => simp [readNumber]
  | append_singleton t c ih =>
    have hsnoc (s : List Char) :
        readNumber (s ++ [c]) = readNumber s * 10 + (c.toNat - '0'.toNat) := by
      simp [readNumber]
    rw [← List.append_assoc, hsnoc, hsnoc, ih, List.length_append, List.length_singleton, pow_succ]
    ring

theorem readNumber_digits (k n : ℕ) : readNumber (digits k n) = n % 10 ^ k := by
  induction k with
  | zero => simp [digits, readNumber, Nat.mod_one]
  | succ k ih =>
    have hsplit : digits (k + 1) n = [(n / 10 ^ k % 10).digitChar] ++ digits k n := rfl
    rw [hsplit, readNumber_append, ih, length_digits, Nat.mod_pow_succ]
    simp only [readNumber, List.foldl_cons, List.foldl_nil]
    rw [digitChar_toNat (Nat.mod_lt _ (by decide))]
    ring

theorem readDigits_digits {k n : ℕ} (h : n < 10 ^ k) (r : List Char) :
    readDigits k (digits k n ++ r) = some (n, r) := by
  have htake : (digits k n ++ r).take k = digits k n := by
    rw [List.take_left' (length_digits k n)]
  have hdrop : (digits k n ++ r).drop k = r := by
    rw [List.drop_left' (length_digits k n)]
  rw [readDigits, htake, hdrop, if_pos ⟨length_digits k n, all_digits k n⟩, readNumber_digits,
    Nat.mod_eq_of_lt h]

theorem expect_cons {p : Char → Bool} {c : Char} (h : p c = true) (r : List Char) :
    expect p (c :: r) = some r := by
  rw [expect, if_pos h]

theorem readFraction_fractionText {ns : ℕ} (h : ns < 1000000000) (r : List Char) :
    readFraction (fractionText ns ++ '+' :: r) = some (ns, '+' :: r) := by
  rw [fractionText]
  split
  · rename_i hw
    rw [fractionWidth_eq_zero.mp hw]
    rfl
  · rename_i hw
    have hle := fractionWidth_le ns
    have hdvd := pow_fractionWidth_dvd ns
    generalize fractionWidth ns = w at hw hle hdvd ⊢
    have hall := List.all_eq_true.mp (all_digits w (ns / 10 ^ (9 - w)))
    have htake : (digits w (ns / 10 ^ (9 - w)) ++ '+' :: r).takeWhile Char.isDigit =
        digits w (ns / 10 ^ (9 - w)) := by
      rw [List.takeWhile_append_of_pos hall, List.takeWhile_cons_of_neg (by decide),
        List.append_nil]
    have hdrop : (digits w (ns / 10 ^ (9 - w)) ++ '+' :: r).dropWhile Char.isDigit = '+' :: r := by
      rw [List.dropWhile_append_of_pos hall, List.dropWhile_cons_of_neg (by decide)]
    have hwidth : (digits w (ns / 10 ^ (9 - w))).take 9 = digits w (ns / 10 ^ (9 - w)) :=
      List.take_of_length_le (by rwa [length_digits])
    have hne : digits w (ns / 10 ^ (9 - w)) ≠ [] := by
      rw [← List.length_pos_iff, length_digits]
      omega
    have hlt : ns / 10 ^ (9 - w) < 10 ^ w := by
      rw [Nat.div_lt_iff_lt_mul (by positivity), ← pow_add, show w + (9 - w) = 9 by omega]
      exact h
    simp only [List.cons_append, readFraction, htake, hdrop, hwidth, hne, if_false, length_digits,
      readNumber_digits, Nat.mod_eq_of_lt hlt, Nat.div_mul_cancel hdvd]

theorem monthDay_spec {lens : List ℕ} {n : ℕ} (h : n < lens.sum) :
    ∃ month day len, monthDay lens n = (month + 1, day + 1) ∧ lens[month]? = some len ∧
      day < len ∧ (lens.take month).sum + day = n := by
  induction lens generalizing n with
  | nil => simp at h
  | cons len rest ih =>
    rw [List.sum_cons] at h
    by_cases hn : n < len
    · exact ⟨0, n, len, by simp [monthDay, hn], rfl, hn, by simp⟩
    · obtain ⟨month, day, l, hmd, hl, hlt, hsum⟩ := ih (n := n - len) (by omega)
      refine ⟨month + 1, day, l, by simp [monthDay, hn, hmd], hl, hlt, ?_⟩
      rw [List.take_succ_cons, List.sum_cons]
      omega

theorem dayNumber_monthDay {d : ℤ} (h : 0 ≤ yearOfDay d) :
    dayNumber (yearOfDay d).toNat (monthDay (monthLengths (isLeap (yearOfDay d))) (dayOfYear d)).1
      (monthDay (monthLengths (isLeap (yearOfDay d))) (dayOfYear d)).2 = some d := by
  have hyear : ((yearOfDay d).toNat : ℤ) = yearOfDay d := Int.toNat_of_nonneg h
  have hlt := dayOfYear_lt d
  have hday : (dayOfYear d : ℤ) = d - daysBeforeYear (yearOfDay d) := by
    rw [dayOfYear]
    exact Int.toNat_of_nonneg (Int.sub_nonneg.mpr (yearOfDay_spec d).1)
  have hsum : dayOfYear d < (monthLengths (isLeap (yearOfDay d))).sum := by
    cases hl : isLeap (yearOfDay d) <;> simpa [hl, monthLengths] using hlt
  obtain ⟨month, day, len, hmd, hlen, hle, hn⟩ := monthDay_spec hsum
  rw [hmd, dayNumber, hyear]
  simp only [hlen, Nat.add_sub_cancel]
  rw [if_pos ⟨Nat.succ_pos day, hle⟩]
  congr 1
  omega

/-- The text of an instant of a four-digit year is read back as the instant. -/
theorem parseRfc3339_rfc3339 {t : ℤ} (h : FourDigitYear t) : parseRfc3339 (rfc3339 t) = some t := by
  have hyear : 0 ≤ yearOfDay (dayOf t) ∧ yearOfDay (dayOf t) ≤ 9999 := h
  have hbounds := monthDay_dayOfYear_bounds (dayOf t)
  have hdate := dayNumber_monthDay hyear.1
  have hseconds : (t / 1000000000 % 86400).toNat < 86400 := by omega
  have hnanos : (t % 1000000000).toNat < 1000000000 := by omega
  have hinstant : ((dayOf t - 719162) * 86400 + (t / 1000000000 % 86400).toNat) * 1000000000 +
      (t % 1000000000).toNat = t := by
    rw [dayOf]
    omega
  rw [rfc3339, dateText, yearText, if_pos hyear]
  generalize monthDay _ (dayOfYear (dayOf t)) = md at hbounds hdate ⊢
  generalize (t / 1000000000 % 86400).toNat = seconds at hseconds hinstant ⊢
  generalize (t % 1000000000).toNat = nanos at hnanos hinstant ⊢
  rw [clockText]
  simp only [List.append_assoc, List.cons_append]
  -- Each reader takes its field off the front of the text.
  refine Option.bind_eq_some_iff.mpr ⟨_, readDigits_digits (by omega) _, ?_⟩
  refine Option.bind_eq_some_iff.mpr ⟨_, expect_cons rfl _, ?_⟩
  refine Option.bind_eq_some_iff.mpr ⟨_, readDigits_digits hbounds.1 _, ?_⟩
  refine Option.bind_eq_some_iff.mpr ⟨_, expect_cons rfl _, ?_⟩
  refine Option.bind_eq_some_iff.mpr ⟨_, readDigits_digits hbounds.2 _, ?_⟩
  refine Option.bind_eq_some_iff.mpr ⟨_, expect_cons rfl _, ?_⟩
  refine Option.bind_eq_some_iff.mpr ⟨_, readDigits_digits (by omega) _, ?_⟩
  refine Option.bind_eq_some_iff.mpr ⟨_, expect_cons rfl _, ?_⟩
  refine Option.bind_eq_some_iff.mpr ⟨_, readDigits_digits (by omega) _, ?_⟩
  refine Option.bind_eq_some_iff.mpr ⟨_, expect_cons rfl _, ?_⟩
  refine Option.bind_eq_some_iff.mpr ⟨_, readDigits_digits (by omega) _, ?_⟩
  refine Option.bind_eq_some_iff.mpr ⟨_, readFraction_fractionText hnanos _, ?_⟩
  refine Option.bind_eq_some_iff.mpr ⟨0, rfl, ?_⟩
  refine Option.bind_eq_some_iff.mpr ⟨_, hdate, ?_⟩
  rw [if_pos (by omega), Option.some.injEq]
  refine Eq.trans ?_ hinstant
  omega

theorem parseRfc3339_of_sign {t : ℤ} (h : ¬ FourDigitYear t) : parseRfc3339 (rfc3339 t) = none := by
  have hyear : ¬ (0 ≤ yearOfDay (dayOf t) ∧ yearOfDay (dayOf t) ≤ 9999) := h
  have hsign (c : Char) (s : List Char) (hc : c.isDigit = false) :
      parseRfc3339 (c :: s) = none := by
    have : readDigits 4 (c :: s) = none := by
      rw [readDigits, if_neg]
      rintro ⟨-, hall⟩
      rw [List.take_succ_cons, List.all_cons, hc] at hall
      cases hall
    rw [parseRfc3339, this]
    rfl
  rw [rfc3339, dateText, yearText, if_neg hyear]
  exact hsign _ _ (by split <;> decide)

theorem parseRfc3339_rfc3339_iff {t : ℤ} : parseRfc3339 (rfc3339 t) = some t ↔ FourDigitYear t := by
  refine ⟨fun h => ?_, parseRfc3339_rfc3339⟩
  by_contra hy
  rw [parseRfc3339_of_sign hy] at h
  cases h

end Calendar
