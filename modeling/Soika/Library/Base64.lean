import Mathlib.Data.Nat.Notation

/-! # URL-safe base64 without padding

Three bytes are four digits; what is left at the end is two or three digits, whose unused
bits are zero. Decoding inverts encoding, and accepts no other text for the same bytes.
-/

namespace Base64

def digit (n : ℕ) : Char :=
  if n < 26 then Char.ofNat (n + 65)
  else if n < 52 then Char.ofNat (n + 71)
  else if n < 62 then Char.ofNat (n - 4)
  else if n = 62 then '-'
  else '_'

/-- The number of a digit. -/
def value (c : Char) : Option ℕ :=
  if c.isUpper then some (c.toNat - 65)
  else if c.isLower then some (c.toNat - 71)
  else if c.isDigit then some (c.toNat + 4)
  else if c = '-' then some 62
  else if c = '_' then some 63
  else none

def isDigit64 (c : Char) : Bool := c.isAlphanum || c = '-' || c = '_'

theorem value_digit {n : ℕ} (h : n < 64) : value (digit n) = some n := by
  have hall : ∀ n : Fin 64, value (digit n) = some n.val := by decide
  exact hall ⟨n, h⟩

theorem isDigit64_digit {n : ℕ} (h : n < 64) : isDigit64 (digit n) = true := by
  have hall : ∀ n : Fin 64, isDigit64 (digit n) = true := by decide
  exact hall ⟨n, h⟩

theorem ofNat_toNat_sub_add {c : Char} {k : ℕ} (h : k ≤ c.toNat) :
    Char.ofNat (c.toNat - k + k) = c := by
  rw [Nat.sub_add_cancel h, Char.ofNat_toNat]

theorem value_eq_some {c : Char} {n : ℕ} (h : value c = some n) : n < 64 ∧ digit n = c := by
  unfold value at h
  split at h
  · rename_i hupper
    cases h
    replace hupper : 65 ≤ c.toNat ∧ c.toNat ≤ 90 := of_decide_eq_true hupper
    refine ⟨by omega, ?_⟩
    rw [digit, if_pos (by omega), ofNat_toNat_sub_add hupper.1]
  · split at h
    · rename_i hlower
      cases h
      replace hlower : 97 ≤ c.toNat ∧ c.toNat ≤ 122 :=
        (Bool.and_eq_true_iff.mp hlower).imp of_decide_eq_true of_decide_eq_true
      refine ⟨by omega, ?_⟩
      rw [digit, if_neg (by omega), if_pos (by omega), ofNat_toNat_sub_add (by omega)]
    · split at h
      · rename_i hdigit
        cases h
        simp only [Char.isDigit, ge_iff_le, UInt32.le_iff_toNat_le, Bool.and_eq_true,
          decide_eq_true_eq] at hdigit
        change 48 ≤ c.toNat ∧ c.toNat ≤ 57 at hdigit
        refine ⟨by omega, ?_⟩
        rw [digit, if_neg (by omega), if_neg (by omega), if_pos (by omega), Nat.add_sub_cancel,
          Char.ofNat_toNat]
      · split at h
        · rename_i hdash
          cases h
          exact ⟨by decide, hdash.symm⟩
        · split at h
          · rename_i hunderscore
            cases h
            exact ⟨by decide, hunderscore.symm⟩
          · cases h

def encode : List UInt8 → List Char
  | a :: b :: c :: rest =>
    digit (a.toNat / 4) :: digit (a.toNat % 4 * 16 + b.toNat / 16) ::
      digit (b.toNat % 16 * 4 + c.toNat / 64) :: digit (c.toNat % 64) :: encode rest
  | [a, b] =>
    [digit (a.toNat / 4), digit (a.toNat % 4 * 16 + b.toNat / 16), digit (b.toNat % 16 * 4)]
  | [a] => [digit (a.toNat / 4), digit (a.toNat % 4 * 16)]
  | [] => []

def bytesOf (w x y z : ℕ) : List UInt8 :=
  [.ofNat (w * 4 + x / 16), .ofNat (x % 16 * 16 + y / 4), .ofNat (y % 4 * 64 + z)]

def decode : List Char → Option (List UInt8)
  | p :: q :: r :: s :: rest => do
    let w ← value p
    let x ← value q
    let y ← value r
    let z ← value s
    let bytes ← decode rest
    return bytesOf w x y z ++ bytes
  | [p, q, r] => do
    let w ← value p
    let x ← value q
    let y ← value r
    -- the bits that no byte uses
    if y % 4 = 0 then return (bytesOf w x y 0).take 2 else none
  | [p, q] => do
    let w ← value p
    let x ← value q
    if x % 16 = 0 then return (bytesOf w x 0 0).take 1 else none
  | [_] => none
  | [] => some []

theorem ofNat_eq {a : UInt8} {n : ℕ} (h : n = a.toNat) : UInt8.ofNat n = a := by
  rw [h, UInt8.ofNat_toNat]

theorem decode_encode (bytes : List UInt8) : decode (encode bytes) = some bytes := by
  induction bytes using encode.induct with
  | case1 a b c rest ih =>
    have ha := a.toNat_lt
    have hb := b.toNat_lt
    have hc := c.toNat_lt
    have hbytes : bytesOf (a.toNat / 4) (a.toNat % 4 * 16 + b.toNat / 16)
        (b.toNat % 16 * 4 + c.toNat / 64) (c.toNat % 64) = [a, b, c] := by
      rw [bytesOf, ofNat_eq (a := a) (by omega), ofNat_eq (a := b) (by omega),
        ofNat_eq (a := c) (by omega)]
    rw [encode, decode, value_digit (by omega), value_digit (by omega), value_digit (by omega),
      value_digit (by omega), ih]
    exact congrArg (fun bytes => some (bytes ++ rest)) hbytes
  | case2 a b =>
    have ha := a.toNat_lt
    have hb := b.toNat_lt
    rw [encode, decode, value_digit (by omega), value_digit (by omega), value_digit (by omega)]
    simp only [Option.bind_eq_bind, Option.bind_some, Nat.mul_mod_left, if_true, bytesOf]
    rw [ofNat_eq (a := a) (by omega), ofNat_eq (a := b) (by omega)]
    rfl
  | case3 a =>
    have ha := a.toNat_lt
    rw [encode, decode, value_digit (by omega), value_digit (by omega)]
    simp only [Option.bind_eq_bind, Option.bind_some, Nat.mul_mod_left, if_true, bytesOf]
    rw [ofNat_eq (a := a) (by omega)]
    rfl
  | case4 => rfl

theorem toNat_ofNat_lt {n : ℕ} (h : n < 256) : (UInt8.ofNat n).toNat = n := by
  rw [UInt8.toNat_ofNat']
  exact Nat.mod_eq_of_lt h

theorem encode_of_decode {text : List Char} {bytes : List UInt8} (h : decode text = some bytes) :
    encode bytes = text := by
  induction text using decode.induct generalizing bytes with
  | case1 p q r s rest ih =>
    simp only [decode, Option.bind_eq_bind, Option.bind_eq_some_iff] at h
    obtain ⟨w, hw, x, hx, y, hy, z, hz, tail, htail, hbytes⟩ := h
    cases hbytes
    obtain ⟨hw, rfl⟩ := value_eq_some hw
    obtain ⟨hx, rfl⟩ := value_eq_some hx
    obtain ⟨hy, rfl⟩ := value_eq_some hy
    obtain ⟨hz, rfl⟩ := value_eq_some hz
    rw [bytesOf, List.cons_append, List.cons_append, List.cons_append, List.nil_append, encode,
      toNat_ofNat_lt (by omega), toNat_ofNat_lt (by omega), toNat_ofNat_lt (by omega), ih htail]
    have hfirst : (w * 4 + x / 16) / 4 = w := by omega
    have hsecond : (w * 4 + x / 16) % 4 * 16 + (x % 16 * 16 + y / 4) / 16 = x := by omega
    have hthird : (x % 16 * 16 + y / 4) % 16 * 4 + (y % 4 * 64 + z) / 64 = y := by omega
    have hfourth : (y % 4 * 64 + z) % 64 = z := by omega
    rw [hfirst, hsecond, hthird, hfourth]
  | case2 p q r =>
    simp only [decode, Option.bind_eq_bind, Option.bind_eq_some_iff] at h
    obtain ⟨w, hw, x, hx, y, hy, h⟩ := h
    obtain ⟨hw, rfl⟩ := value_eq_some hw
    obtain ⟨hx, rfl⟩ := value_eq_some hx
    obtain ⟨hy, rfl⟩ := value_eq_some hy
    split at h
    · rename_i hzero
      cases h
      rw [bytesOf, List.take_succ_cons, List.take_succ_cons, List.take_zero, encode,
        toNat_ofNat_lt (by omega), toNat_ofNat_lt (by omega)]
      have hfirst : (w * 4 + x / 16) / 4 = w := by omega
      have hsecond : (w * 4 + x / 16) % 4 * 16 + (x % 16 * 16 + y / 4) / 16 = x := by omega
      have hthird : (x % 16 * 16 + y / 4) % 16 * 4 = y := by omega
      rw [hfirst, hsecond, hthird]
    · cases h
  | case3 p q =>
    simp only [decode, Option.bind_eq_bind, Option.bind_eq_some_iff] at h
    obtain ⟨w, hw, x, hx, h⟩ := h
    obtain ⟨hw, rfl⟩ := value_eq_some hw
    obtain ⟨hx, rfl⟩ := value_eq_some hx
    split at h
    · rename_i hzero
      cases h
      rw [bytesOf, List.take_succ_cons, List.take_zero, encode, toNat_ofNat_lt (by omega)]
      have hfirst : (w * 4 + x / 16) / 4 = w := by omega
      have hsecond : (w * 4 + x / 16) % 4 * 16 = x := by omega
      rw [hfirst, hsecond]
    · cases h
  | case4 p => cases h
  | case5 =>
    cases h
    rfl

theorem isDigit64_encode (bytes : List UInt8) : ∀ c ∈ encode bytes, isDigit64 c = true := by
  induction bytes using encode.induct with
  | case1 a b c rest ih =>
    have ha := a.toNat_lt
    have hb := b.toNat_lt
    have hc := c.toNat_lt
    rw [encode]
    simp only [List.forall_mem_cons]
    exact ⟨isDigit64_digit (by omega), isDigit64_digit (by omega), isDigit64_digit (by omega),
      isDigit64_digit (by omega), ih⟩
  | case2 a b =>
    have ha := a.toNat_lt
    have hb := b.toNat_lt
    rw [encode]
    simp only [List.forall_mem_cons]
    exact ⟨isDigit64_digit (by omega), isDigit64_digit (by omega), isDigit64_digit (by omega), by simp⟩
  | case3 a =>
    have ha := a.toNat_lt
    rw [encode]
    simp only [List.forall_mem_cons]
    exact ⟨isDigit64_digit (by omega), isDigit64_digit (by omega), by simp⟩
  | case4 => simp [encode]

end Base64
