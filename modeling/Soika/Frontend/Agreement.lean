import Mathlib.Data.List.TakeWhile
import Mathlib.Tactic.Common
import Mathlib.Tactic.FinCases
import Soika.Domain.JsonPath
import Soika.Frontend.Stacktrace

/-! # Two readers of one payload

The viewer reads the same event as the server. Both look for a stack trace in the same
places, so they differ only where a field is read differently: a blank string `message`
ends the server's search but not the viewer's, and a line number is read from a string
by different rules.
-/

namespace Soika.Frontend

theorem roundNat_eq {n : ℕ} (h : n < 2 ^ 53) : roundNat n = n := by
  have hexcess : n.log2 + 1 - 53 = 0 := by
    rcases Nat.eq_zero_or_pos n with rfl | hn
    · rfl
    · have := (Nat.log2_lt hn.ne').mpr h
      omega
  simp [roundNat, hexcess, Nat.mod_one]

theorem dvd_roundNat (n : ℕ) : 2 ^ (n.log2 + 1 - 53) ∣ roundNat n := by
  rw [roundNat]
  split
  · exact Nat.dvd_mul_left ..
  · exact Nat.dvd_mul_left ..

theorem roundNat_le (n : ℕ) : roundNat n ≤ n + 2 ^ (n.log2 + 1 - 53) := by
  have hdiv := Nat.div_mul_le_self n (2 ^ (n.log2 + 1 - 53))
  rw [roundNat]
  split
  · rw [Nat.add_mul, one_mul]
    exact Nat.add_le_add_right hdiv _
  · exact hdiv.trans (Nat.le_add_right ..)

theorem roundNat_lt {n : ℕ} (h : n < 2 ^ 64) : roundNat n < 2 ^ 1024 := by
  have hunit : 2 ^ (n.log2 + 1 - 53) ≤ 2 ^ 11 := by
    rcases Nat.eq_zero_or_pos n with rfl | hn
    · decide
    · have := (Nat.log2_lt hn.ne').mpr h
      exact Nat.pow_le_pow_right (by decide) (by omega)
  have hround : roundNat n < 2 ^ 65 := (roundNat_le n).trans_lt (by omega)
  have hpow {k : ℕ} (hk : 65 ≤ k) : 2 ^ 65 ≤ 2 ^ k := Nat.pow_le_pow_right Nat.two_pos hk
  exact hround.trans_le (hpow (by decide))

/-- From `2^63` on, doubles are even. -/
theorem even_roundNat {n : ℕ} (h : 2 ^ 63 ≤ n) : 2 ∣ roundNat n := by
  have hlog : 63 ≤ n.log2 := by
    rw [Nat.le_log2 (by omega)]
    exact h
  exact (Nat.dvd_trans (dvd_pow_self 2 (by omega)) (dvd_roundNat n))

/-- The integer is one of both languages: a 64-bit integer, and a double. -/
def ExactInteger (n : ℤ) : Prop := i64Min ≤ n ∧ n ≤ i64Max ∧ roundNat n.natAbs = n.natAbs

theorem double_eq {n : ℤ} (h : n.natAbs < 2 ^ 64) :
    double n = some (if n < 0 then -(roundNat n.natAbs : ℤ) else roundNat n.natAbs) := by
  rw [double, if_neg (Nat.not_le.mpr (roundNat_lt h))]

theorem double_eq_self_iff {n : ℤ} (h : n.natAbs < 2 ^ 64) :
    double n = some n ↔ roundNat n.natAbs = n.natAbs := by
  rw [double_eq h, Option.some.injEq]
  split <;> omega

theorem natAbs_lt_of_i64 {n : ℤ} (hmin : i64Min ≤ n) (hmax : n ≤ i64Max) : n.natAbs < 2 ^ 64 := by
  simp only [i64Min, i64Max] at hmin hmax
  omega

theorem isWhitespace_of_isDigit {c : Char} (h : c.isDigit = true) : isWhitespace c = false := by
  simp only [Char.isDigit, Bool.and_eq_true, decide_eq_true_eq, ge_iff_le,
    UInt32.le_iff_toNat_le] at h
  change 48 ≤ c.toNat ∧ c.toNat ≤ 57 at h
  simp only [isWhitespace, Bool.or_eq_false_iff, Bool.and_eq_false_iff, decide_eq_false_iff_not]
  omega

theorem parseI64_range {s : String} {n : ℤ} (h : parseI64 s = some n) :
    i64Min ≤ n ∧ n ≤ i64Max := by
  rw [parseI64] at h
  split at h
  split at h
  · cases h
  · simp only [Option.ite_none_right_eq_some, Option.some.injEq] at h
    obtain ⟨hrange, rfl⟩ := h
    exact hrange

/-- A text that the server reads as an integer is a sign and digits: the viewer reads all of it. -/
theorem parseInt_of_parseI64 {s : String} {n : ℤ} (h : parseI64 s = some n) :
    parseInt s = double n := by
  rw [parseI64] at h
  split at h
  rename_i negative digits hsign
  split at h
  · cases h
  rename_i hdigits
  obtain ⟨hne, hall⟩ := not_or.mp hdigits
  have hall := List.all_eq_true.mp (not_not.mp hall)
  have hn : (if negative then -(decimal digits : ℤ) else decimal digits) = n := by
    simp only [Option.ite_none_right_eq_some, Option.some.injEq] at h
    exact h.2
  have hdrop : s.toList.dropWhile isWhitespace = s.toList := by
    split at hsign
    · rename_i heq
      rw [heq]
      rfl
    · rename_i heq
      rw [heq]
      rfl
    · obtain ⟨-, rfl⟩ := Prod.mk.inj hsign
      obtain ⟨c, rest, hc⟩ := List.exists_cons_of_ne_nil hne
      rw [hc] at hall ⊢
      rw [List.dropWhile_cons_of_neg]
      simp [isWhitespace_of_isDigit (hall c List.mem_cons_self)]
  rw [parseInt, hdrop]
  split
  rename_i negative' rest hsign'
  obtain ⟨rfl, rfl⟩ := Prod.mk.inj (hsign.symm.trans hsign')
  rw [List.takeWhile_eq_self_iff.mpr hall, ← hn]
  obtain ⟨c, rest, rfl⟩ := List.exists_cons_of_ne_nil hne
  rfl

/-- Both languages read the integer of a field, and hold it exactly; or neither reads one. -/
def ReadsAlike : Option Value → Prop
  | some (.number (.posInt n)) => ExactInteger n.toNat
  | some (.number (.negInt n)) => ExactInteger n.toInt
  | some (.number (.float bits)) => ∃ n, truncDouble bits = some n ∧ i64Min ≤ n ∧ n ≤ i64Max
  | some (.string s) =>
    parseInt (trim s) = none ∨ ∃ n, parseI64 (Soika.trim s) = some n ∧ ExactInteger n
  | _ => True

theorem posInt_alike_iff (n : UInt64) :
    double n.toNat = some (min i64Max n.toNat) ↔ ExactInteger n.toNat := by
  have hlt : n.toNat < 2 ^ 64 := n.toNat_lt
  rw [double_eq (by simpa using hlt), if_neg (by omega), Option.some.injEq, ExactInteger,
    Int.natAbs_natCast]
  constructor
  · intro h
    rcases Nat.lt_or_ge n.toNat (2 ^ 63) with hsmall | hlarge
    · simp only [i64Max, i64Min] at h ⊢
      omega
    · have := even_roundNat hlarge
      simp only [i64Max] at h
      omega
  · rintro ⟨-, hmax, h⟩
    simp only [i64Max] at hmax ⊢
    omega

theorem negInt_alike_iff (n : Int64) : double n.toInt = some n.toInt ↔ ExactInteger n.toInt := by
  have hmin : i64Min ≤ n.toInt := n.le_toInt
  have hmax : n.toInt ≤ i64Max := n.toInt_le
  rw [double_eq_self_iff (natAbs_lt_of_i64 hmin hmax), ExactInteger]
  simp only [hmin, hmax, true_and]

/-- The server brings a finite float into the range of its integers. -/
theorem truncF64_of_truncDouble {bits : UInt64} {n : ℤ} (h : truncDouble bits = some n) :
    truncF64 bits = max i64Min (min i64Max n) := by
  have hmin : i64Min ≤ 0 := by decide
  have hmax : 0 ≤ i64Max := by decide
  simp only [truncDouble] at h
  split at h
  · cases h
  rename_i hfinite
  simp only [truncF64, hfinite, false_and, ite_false]
  simp only [Option.some.injEq] at h
  rw [← h]
  generalize (if _ = 0 then 0 else _ : ℕ) = magnitude
  split <;> omega

theorem float_alike_iff (bits : UInt64) :
    truncDouble bits = some (truncF64 bits) ↔
      ∃ n, truncDouble bits = some n ∧ i64Min ≤ n ∧ n ≤ i64Max := by
  have hle : i64Min ≤ i64Max := by decide
  cases h : truncDouble bits with
  | none => simp
  | some n =>
    rw [truncF64_of_truncDouble h]
    simp only [Option.some.injEq, exists_eq_left']
    omega

theorem string_alike_iff {s : String} (htrim : Soika.trim s = trim s) :
    parseInt (trim s) = parseI64 (Soika.trim s) ↔ ReadsAlike (some (.string s)) := by
  rw [ReadsAlike, htrim]
  cases hi : parseI64 (trim s) with
  | none => simp
  | some n =>
    have hdouble := parseInt_of_parseI64 hi
    have hrange := parseI64_range hi
    have hlt := natAbs_lt_of_i64 hrange.1 hrange.2
    rw [hdouble, double_eq_self_iff hlt]
    constructor
    · intro h
      exact Or.inr ⟨n, rfl, hrange.1, hrange.2, h⟩
    · rintro (h | ⟨m, hm, -, -, h⟩)
      · rw [double_eq hlt] at h
        cases h
      · cases hm
        exact h

theorem intField_eq_iff {v : Value} {key : String}
    (htrim : ∀ s, v.get key = some (.string s) → Soika.trim s = trim s) :
    intField (asObject (some v)) key = Soika.intField v key ↔ ReadsAlike (v.get key) := by
  rw [intField, Soika.intField, prop_asObject]
  match hv : v.get key with
  | none => simp [ReadsAlike]
  | some (.number (.posInt n)) => exact posInt_alike_iff n
  | some (.number (.negInt n)) => exact negInt_alike_iff n
  | some (.number (.float bits)) => exact float_alike_iff bits
  | some (.string s) => exact string_alike_iff (htrim s hv)
  | some .null => simp [ReadsAlike]
  | some (.bool b) => simp [ReadsAlike]
  | some (.array elems) => simp [ReadsAlike]
  | some (.object members) => simp [ReadsAlike]

/-- The strings of a value trim alike in both languages. -/
def TrimsAlike (v : Value) : Prop :=
  ∀ path s, v.atPath path = some (.string s) → Soika.trim s = trim s

namespace TrimsAlike

variable {v u : Value} {elems : List Value} {key : String}

theorem get (h : TrimsAlike v) (hu : v.get key = some u) : TrimsAlike u := by
  intro path s hs
  refine h (.key key :: path) s ?_
  rw [Value.atPath_key, hu]
  exact hs

theorem mem (h : TrimsAlike (.array elems)) (hu : u ∈ elems) : TrimsAlike u := by
  obtain ⟨i, hi⟩ := List.mem_iff_getElem?.mp hu
  intro path s hs
  refine h (.index i :: path) s ?_
  rw [Value.atPath_index, hi]
  exact hs

theorem string {s : String} (h : TrimsAlike (.string s)) : Soika.trim s = trim s := h [] s rfl

theorem of_string {s : String} (h : Soika.trim s = trim s) : TrimsAlike (.string s) := by
  intro path t ht
  cases path with
  | nil =>
    cases ht
    exact h
  | cons segment path =>
    rw [Value.atPath_cons_eq_none rfl rfl] at ht
    cases ht

theorem of_number (n : Number) : TrimsAlike (.number n) := by
  intro path t ht
  cases path with
  | nil => cases ht
  | cons segment path =>
    rw [Value.atPath_cons_eq_none rfl rfl] at ht
    cases ht

theorem of_array (h : ∀ u ∈ elems, TrimsAlike u) : TrimsAlike (.array elems) := by
  intro path t ht
  match path with
  | [] => cases ht
  | .key key :: path => cases ht
  | .index i :: path =>
    obtain ⟨u, hu, ht⟩ := Option.bind_eq_some_iff.mp ht
    exact h u (List.mem_of_getElem? hu) path t ht

theorem of_object {members : List (String × Value)} (h : ∀ m ∈ members, TrimsAlike m.2) :
    TrimsAlike (.object members) := by
  intro path t ht
  match path with
  | [] => cases ht
  | .index i :: path => cases ht
  | .key key :: path =>
    obtain ⟨u, hu, ht⟩ := Option.bind_eq_some_iff.mp ht
    obtain ⟨m, hm, rfl⟩ := Option.map_eq_some_iff.mp hu
    exact h m (List.mem_of_find?_eq_some hm) path t ht

theorem stringField (h : TrimsAlike v) (key : String) :
    stringField (asObject (some v)) key = Soika.stringField v key := by
  rw [Frontend.stringField, Soika.stringField, prop_asObject]
  match hv : v.get key with
  | none => rfl
  | some (.string s) =>
    change trimmed s = nonEmpty s
    rw [trimmed, nonEmpty, (h.get hv).string]
  | some .null | some (.bool b) | some (.number n) | some (.array elems) | some (.object ms) => rfl

end TrimsAlike

theorem stringArray_eq (v : Value) (key : String) :
    stringArray (asObject (some v)) key = Soika.stringArray v key := by
  rw [stringArray, Soika.stringArray, prop_asObject]
  rfl

theorem parseFrame_eq_iff {raw : Value} (h : TrimsAlike raw) :
    parseFrame raw = Soika.parseFrame raw ↔
      ReadsAlike (raw.get "lineno") ∧ ReadsAlike (raw.get "colno") := by
  rw [← intField_eq_iff fun s hs => (h.get hs).string,
    ← intField_eq_iff fun s hs => (h.get hs).string]
  simp only [parseFrame, Soika.parseFrame, h.stringField, stringArray_eq, prop_asObject,
    Frame.mk.injEq, true_and, and_true]

def framesField (st : Value) : Option (List Value) :=
  ((st.get "frames").bind Value.asArray).filter fun frames => ¬ frames.isEmpty

/-- The raw frames of the `stacktrace` of a value. -/
def framesOf (v : Value) : Option (List Value) := (v.get "stacktrace").bind framesField

def threadsOf (payload : Value) : List Value :=
  match valuesField payload "threads" with
  | none => []
  | some threads =>
    (threads.find? fun t => (t.get "crashed").bind Value.asBool = some true).toList ++ threads

def rawFrames (payload : Value) : Option (List Value) :=
  let exceptions := (valuesField payload "exception").getD []
  (exceptions.getLast?.bind framesOf).or <| (exceptions.findSome? framesOf).or <|
    ((threadsOf payload).findSome? framesOf).or (framesOf payload)

theorem withFrames_stacktraceField (v : Value) :
    withFrames (stacktraceField v) =
      (framesOf v).map fun frames => ⟨frames.map Soika.parseFrame⟩ := by
  rw [stacktraceField, framesOf]
  cases v.get "stacktrace" with
  | none => rfl
  | some st =>
    cases st with
    | object members =>
      change withFrames (some (Stacktrace.fromValue _)) = Option.map _ (framesField _)
      rw [Stacktrace.fromValue, framesField]
      cases ((Value.object members).get "frames").bind Value.asArray with
      | none => rfl
      | some frames => cases frames <;> rfl
    | _ => rfl

theorem stacktraceOf_eq (v : Value) :
    stacktraceOf v = (framesOf v).map fun frames => ⟨frames.map parseFrame⟩ := by
  rw [stacktraceOf, prop_asObject, framesOf]
  cases v.get "stacktrace" with
  | none => rfl
  | some st =>
    cases st with
    | object members =>
      change parseStacktrace (some (.object members)) = Option.map _ (framesField _)
      simp only [parseStacktrace, asObject, framesField, asArray, prop, Option.bind_some]
      cases ((Value.object members).get "frames").bind Value.asArray with
      | none => rfl
      | some frames => cases frames <;> rfl
    | _ => rfl

theorem framesOf_ne_nil {v : Value} {frames : List Value} (h : framesOf v = some frames) :
    frames ≠ [] := by
  obtain ⟨st, -, h⟩ := Option.bind_eq_some_iff.mp h
  have := (Option.filter_eq_some_iff.mp h).2
  simpa using this

section

variable {τ : Type} {f : List Value → τ} {values : List Value}

theorem findSome?_map (values : List Value) (f : List Value → τ) :
    (values.findSome? fun v => (framesOf v).map f) = (values.findSome? framesOf).map f := by
  rw [List.map_findSome?]
  rfl

end

theorem parseExceptions_backend (payload : Value) :
    Soika.parseExceptions payload =
      ((valuesField payload "exception").getD []).map Soika.parseException := by
  rw [Soika.parseExceptions]
  cases valuesField payload "exception" <;> rfl

theorem valuesField_eq (payload : Value) (key : String) :
    asArray (prop (asObject (prop (asObject (some payload)) key)) "values") =
      valuesField payload key := by
  rw [prop_asObject, valuesField]
  cases payload.get key with
  | none => rfl
  | some v =>
    rw [prop_asObject]
    rfl

theorem parseExceptions_eq (payload : Value) :
    parseExceptions (asObject (some payload)) =
      ((valuesField payload "exception").getD []).map parseException := by
  rw [parseExceptions, valuesField_eq]
  cases valuesField payload "exception" <;> rfl

theorem threadStacktrace_backend (payload : Value) :
    withFrames (Soika.threadStacktrace payload) =
      ((threadsOf payload).findSome? framesOf).map fun frames => ⟨frames.map Soika.parseFrame⟩ := by
  have hthreads : Soika.threadStacktrace payload =
      ((threadsOf payload).findSome? framesOf).map fun frames => ⟨frames.map Soika.parseFrame⟩ := by
    rw [Soika.threadStacktrace, threadsOf]
    cases valuesField payload "threads" with
    | none => rfl
    | some threads =>
      simp only [withFrames_stacktraceField, findSome?_map, Option.bind_eq_bind, Option.bind_some]
  rw [hthreads]
  cases h : (threadsOf payload).findSome? framesOf with
  | none => rfl
  | some frames =>
    obtain ⟨v, -, hv⟩ := List.exists_of_findSome?_eq_some h
    simp [withFrames, Stacktrace.isEmpty, framesOf_ne_nil hv]

theorem threadStacktrace_eq (payload : Value) :
    threadStacktrace (asObject (some payload)) =
      ((threadsOf payload).findSome? framesOf).map fun frames => ⟨frames.map parseFrame⟩ := by
  rw [threadStacktrace, valuesField_eq, threadsOf]
  cases valuesField payload "threads" with
  | none => rfl
  | some threads =>
    simp only [prop_asObject]
    rw [funext stacktraceOf_eq, findSome?_map]

theorem resolveStacktrace_backend (payload : Value) :
    Soika.resolveStacktrace payload (Soika.parseExceptions payload) =
      (rawFrames payload).map fun frames => ⟨frames.map Soika.parseFrame⟩ := by
  have hlast (values : List Value) :
      withFrames ((values.map Soika.parseException).getLast?.bind (·.stacktrace)) =
        (values.getLast?.bind framesOf).map fun frames => ⟨frames.map Soika.parseFrame⟩ := by
    rw [List.getLast?_map]
    cases values.getLast? with
    | none => rfl
    | some v => exact withFrames_stacktraceField v
  rw [Soika.resolveStacktrace, parseExceptions_backend, hlast, List.findSome?_map,
    threadStacktrace_backend, withFrames_stacktraceField, rawFrames]
  simp only [Option.map_or, ← findSome?_map, ← withFrames_stacktraceField]
  rfl

theorem resolveStacktrace_eq (payload : Value) :
    resolveStacktrace (asObject (some payload)) (parseExceptions (asObject (some payload))) =
      (rawFrames payload).map fun frames => ⟨frames.map parseFrame⟩ := by
  have hlast (values : List Value) :
      (values.map parseException).getLast?.bind (·.stacktrace) =
        (values.getLast?.bind framesOf).map fun frames => ⟨frames.map parseFrame⟩ := by
    rw [List.getLast?_map]
    cases values.getLast? with
    | none => rfl
    | some v => exact stacktraceOf_eq v
  have htop : parseStacktrace (prop (asObject (some payload)) "stacktrace") =
      (framesOf payload).map fun frames => ⟨frames.map parseFrame⟩ := stacktraceOf_eq payload
  have hany (values : List Value) :
      (values.map parseException).findSome? (·.stacktrace) =
        (values.findSome? framesOf).map fun frames => ⟨frames.map parseFrame⟩ := by
    rw [List.findSome?_map, ← findSome?_map]
    exact congrArg values.findSome? (funext stacktraceOf_eq)
  rw [resolveStacktrace, parseExceptions_eq, hlast, hany, threadStacktrace_eq, htop, rawFrames]
  simp only [Option.map_or]
  generalize Option.map _ (Option.bind _ framesOf) = thrown
  generalize Option.map _ (List.findSome? framesOf (Option.getD _ _)) = any
  generalize Option.map _ (List.findSome? framesOf (threadsOf payload)) = thread
  cases thrown <;> cases any <;> cases thread <;> rfl

theorem messageObject_eq {v : Value} (h : TrimsAlike v) :
    messageObject (asObject (some v)) = Soika.messageObject v := by
  rw [messageObject, Soika.messageObject, h.stringField, h.stringField]

theorem messageField_eq {payload : Value} (h : TrimsAlike payload) (key : String) :
    messageObject (asObject (payload.get key)) = (payload.get key).bind Soika.messageObject := by
  cases hv : payload.get key with
  | none => rfl
  | some v => exact messageObject_eq (h.get hv)

def HiddenByBlank (payload : Value) : Prop :=
  (∃ s, payload.get "message" = some (.string s) ∧ Soika.trim s = "") ∧
    (payload.get "logentry").bind Soika.messageObject ≠ none

theorem parseMessage_eq_iff {payload : Value} (h : TrimsAlike payload) :
    parseMessage (asObject (some payload)) = Soika.parseMessage payload ↔
      ¬ HiddenByBlank payload := by
  rw [parseMessage, Soika.parseMessage, prop_asObject, prop_asObject, messageField_eq h,
    messageField_eq h, HiddenByBlank]
  generalize (payload.get "logentry").bind Soika.messageObject = entry
  match hv : payload.get "message" with
  | none => simp
  | some (.string s) =>
    have htrim := (h.get hv).string
    have hobject : Soika.messageObject (.string s) = none := rfl
    by_cases hblank : trim s = ""
    · simp [Value.asStr, nonEmpty, trimmed, htrim, hblank, hobject]
    · simp [Value.asStr, nonEmpty, trimmed, htrim, hblank]
  | some .null | some (.bool b) | some (.number n) | some (.array elems) | some (.object ms) =>
    simp [Value.asStr]

def ShowsLine (raw : Value) (n : ℤ) : Prop :=
  Soika.stringField raw "function" = none ∧
    ((Soika.stringField raw "filename").or (Soika.stringField raw "abs_path")) ≠ none ∧
    Soika.intField raw "lineno" = some n

theorem truthy_stringField (v : Value) (key : String) :
    truthy (Soika.stringField v key) = Soika.stringField v key := by
  cases h : Soika.stringField v key with
  | none => rfl
  | some s =>
    obtain ⟨t, -, hs⟩ := Option.bind_eq_some_iff.mp h
    simp only [nonEmpty, Option.ite_none_left_eq_some, Option.some.injEq] at hs
    simp [truthy, Option.filter, ← hs.2, hs.1]

theorem truthy_file (v : Value) :
    truthy ((Soika.stringField v "filename").or (Soika.stringField v "abs_path")) =
      (Soika.stringField v "filename").or (Soika.stringField v "abs_path") := by
  cases h : Soika.stringField v "filename" with
  | none => exact truthy_stringField v "abs_path"
  | some s =>
    rw [Option.some_or, ← h]
    exact truthy_stringField v "filename"

theorem integerText_eq_iff {largeText : ℤ → String} {n : ℤ} :
    integerText largeText n = toString n ↔ n.natAbs ≤ 2 ^ 53 ∨ largeText n = toString n := by
  rw [integerText]
  split <;> simp_all

theorem frameLocation_eq_iff (largeText : ℤ → String) (raw : Value) :
    frameLocation largeText (Soika.parseFrame raw) = (Soika.parseFrame raw).location ↔
      ∀ n, ShowsLine raw n → n.natAbs ≤ 2 ^ 53 ∨ largeText n = toString n := by
  have hfilter (key : String) : (Soika.stringField raw key).filter (· ≠ "") =
      Soika.stringField raw key := truthy_stringField raw key
  simp only [frameLocation, Frame.location, Frame.displayFile, frameFile, Soika.parseFrame,
    truthy_stringField, truthy_file, hfilter, ShowsLine, ← integerText_eq_iff]
  generalize (Soika.stringField raw "filename").or (Soika.stringField raw "abs_path") = file
  cases Soika.stringField raw "function" with
  | some function => cases Soika.stringField raw "module" <;> cases file <;> simp
  | none =>
    cases file with
    | none => simp
    | some file => cases Soika.intField raw "lineno" <;> simp [String.append_right_inj]

/-- Both sides take the same event out of a payload, and show it the same way. -/
structure Agree (largeText : ℤ → String) (shown : ParsedEvent) (event : NormalizedEvent) :
    Prop where
  exceptionType : shown.exceptionType = event.exceptionType
  exceptionValue : shown.exceptionValue = event.exceptionValue
  message : shown.message = event.message
  level : shown.level = event.level
  stacktrace : shown.stacktrace = event.stacktrace
  relevant : shown.stacktrace.map mostRelevantFrame =
    event.stacktrace.map Stacktrace.mostRelevantFrame
  locations : shown.stacktrace.map (fun st => st.frames.map (frameLocation largeText)) =
    event.stacktrace.map fun st => st.frames.map Frame.location

/-- The fields that the two languages read by different rules read alike in a payload. -/
structure PlainFields (largeText : ℤ → String) (payload : Value) : Prop where
  message : ¬ HiddenByBlank payload
  integers : ∀ frames, rawFrames payload = some frames → ∀ raw ∈ frames,
    ReadsAlike (raw.get "lineno") ∧ ReadsAlike (raw.get "colno")
  lines : ∀ frames, rawFrames payload = some frames → ∀ raw ∈ frames, ∀ n,
    ShowsLine raw n → n.natAbs ≤ 2 ^ 53 ∨ largeText n = toString n

theorem mostRelevantFrame_eq (st : Stacktrace) : mostRelevantFrame st = st.mostRelevantFrame := by
  rw [mostRelevantFrame, Stacktrace.mostRelevantFrame]
  have : isInApp = Frame.isInApp := rfl
  rw [this]
  cases st.frames.reverse.find? Frame.isInApp <;> rfl

namespace TrimsAlike

variable {payload : Value}

theorem of_valuesField (h : TrimsAlike payload) {key : String} {values : List Value} {v : Value}
    (hvalues : valuesField payload key = some values) (hv : v ∈ values) : TrimsAlike v := by
  obtain ⟨u, hu, harray⟩ := Option.bind_eq_some_iff.mp hvalues
  obtain ⟨w, hw, hu⟩ := Option.bind_eq_some_iff.mp hu
  cases u with
  | array elems =>
    cases harray
    exact ((h.get hw).get hu).mem hv
  | _ => cases harray

theorem of_framesOf (h : TrimsAlike payload) {frames : List Value} {raw : Value}
    (hframes : framesOf payload = some frames) (hraw : raw ∈ frames) : TrimsAlike raw := by
  obtain ⟨st, hst, hframes⟩ := Option.bind_eq_some_iff.mp hframes
  obtain ⟨u, hu, harray⟩ := Option.bind_eq_some_iff.mp (Option.filter_eq_some_iff.mp hframes).1
  cases u with
  | array elems =>
    cases harray
    exact ((h.get hst).get hu).mem hraw
  | _ => cases harray

theorem of_threadsOf (h : TrimsAlike payload) {v : Value} (hv : v ∈ threadsOf payload) :
    TrimsAlike v := by
  rw [threadsOf] at hv
  split at hv
  · cases hv
  · rename_i threads hthreads
    refine h.of_valuesField hthreads ?_
    rcases List.mem_append.mp hv with hv | hv
    · exact List.mem_of_find?_eq_some (Option.mem_toList.mp hv)
    · exact hv

theorem of_rawFrames (h : TrimsAlike payload) {frames : List Value} {raw : Value}
    (hframes : rawFrames payload = some frames) (hraw : raw ∈ frames) : TrimsAlike raw := by
  have hexception {v : Value} (hv : v ∈ (valuesField payload "exception").getD []) :
      TrimsAlike v := by
    cases hvalues : valuesField payload "exception" with
    | none => simp [hvalues] at hv
    | some values =>
      rw [hvalues] at hv
      exact h.of_valuesField hvalues hv
  simp only [rawFrames, Option.or_eq_some_iff] at hframes
  rcases hframes with hthrown | ⟨-, hany | ⟨-, hthread | ⟨-, htop⟩⟩⟩
  · obtain ⟨v, hv, hthrown⟩ := Option.bind_eq_some_iff.mp hthrown
    exact (hexception (List.mem_of_getLast? hv)).of_framesOf hthrown hraw
  · obtain ⟨v, hv, hany⟩ := List.exists_of_findSome?_eq_some hany
    exact (hexception hv).of_framesOf hany hraw
  · obtain ⟨v, hv, hthread⟩ := List.exists_of_findSome?_eq_some hthread
    exact (h.of_threadsOf hv).of_framesOf hthread hraw
  · exact h.of_framesOf htop hraw

end TrimsAlike

theorem stacktrace_eq_iff {payload : Value} (h : TrimsAlike payload) :
    (parseEvent payload).stacktrace = (NormalizedEvent.fromValue payload).stacktrace ↔
      ∀ frames, rawFrames payload = some frames → ∀ raw ∈ frames,
        ReadsAlike (raw.get "lineno") ∧ ReadsAlike (raw.get "colno") := by
  simp only [parseEvent, NormalizedEvent.fromValue, resolveStacktrace_eq,
    resolveStacktrace_backend]
  cases hframes : rawFrames payload with
  | none => simp
  | some frames =>
    simp only [Option.map_some, Option.some.injEq, Stacktrace.mk.injEq, forall_eq',
      List.map_inj_left]
    exact forall₂_congr fun raw hraw => parseFrame_eq_iff (h.of_rawFrames hframes hraw)

theorem locations_eq_iff (largeText : ℤ → String) (payload : Value) :
    ((NormalizedEvent.fromValue payload).stacktrace.map fun st =>
        st.frames.map (frameLocation largeText)) =
      ((NormalizedEvent.fromValue payload).stacktrace.map fun st => st.frames.map Frame.location) ↔
      ∀ frames, rawFrames payload = some frames → ∀ raw ∈ frames, ∀ n,
        ShowsLine raw n → n.natAbs ≤ 2 ^ 53 ∨ largeText n = toString n := by
  simp only [NormalizedEvent.fromValue, resolveStacktrace_backend]
  cases rawFrames payload with
  | none => simp
  | some frames =>
    simp only [Option.map_some, Option.some.injEq, List.map_map, List.map_inj_left, forall_eq',
      Function.comp_apply]
    exact forall₂_congr fun raw _ => frameLocation_eq_iff largeText raw

theorem thrown_eq {payload : Value} (h : TrimsAlike payload) :
    (parseEvent payload).exceptionType = (NormalizedEvent.fromValue payload).exceptionType ∧
      (parseEvent payload).exceptionValue = (NormalizedEvent.fromValue payload).exceptionValue := by
  simp only [parseEvent, NormalizedEvent.fromValue, parseExceptions_eq, parseExceptions_backend,
    List.getLast?_map]
  cases hvalues : valuesField payload "exception" with
  | none => exact ⟨rfl, rfl⟩
  | some values =>
    rw [Option.getD_some]
    cases hlast : values.getLast? with
    | none => exact ⟨rfl, rfl⟩
    | some v =>
      have hv := h.of_valuesField hvalues (List.mem_of_getLast? hlast)
      exact ⟨hv.stringField "type", hv.stringField "value"⟩

/-- The viewer shows the event that the server takes a payload for exactly when the fields
that the languages read by different rules are plain. -/
theorem viewer_agrees_iff (largeText : ℤ → String) {payload : Value} (h : TrimsAlike payload) :
    Agree largeText (parseEvent payload) (NormalizedEvent.fromValue payload) ↔
      PlainFields largeText payload := by
  constructor
  · intro ha
    refine ⟨(parseMessage_eq_iff h).mp ha.message, (stacktrace_eq_iff h).mp ha.stacktrace, ?_⟩
    rw [← locations_eq_iff, ← ha.locations, ha.stacktrace]
  · intro hp
    have hst := (stacktrace_eq_iff h).mpr hp.integers
    refine ⟨(thrown_eq h).1, (thrown_eq h).2, (parseMessage_eq_iff h).mpr hp.message,
      h.stringField "level", hst, ?_, ?_⟩
    · rw [hst, funext mostRelevantFrame_eq]
    · rw [hst]
      exact (locations_eq_iff largeText payload).mpr hp.lines

def framedPayload : Value :=
  .object [("message", .string " boom "),
    ("stacktrace", .object [("frames", .array [.object [("filename", .string "app.py"),
      ("lineno", .number (.posInt 7))]])])]

theorem viewer_agrees_iff_framedPayload :
    Agree toString (parseEvent framedPayload) (NormalizedEvent.fromValue framedPayload) := by
  have htrim : TrimsAlike framedPayload := by
    refine .of_object fun m hm => ?_
    fin_cases hm
    · exact .of_string (by decide)
    · refine .of_object fun m hm => ?_
      fin_cases hm
      refine .of_array fun u hu => ?_
      fin_cases hu
      refine .of_object fun m hm => ?_
      fin_cases hm
      · exact .of_string (by decide)
      · exact .of_number _
  refine (viewer_agrees_iff toString htrim).mpr ⟨?_, ?_, fun _ _ _ _ _ _ => Or.inr rfl⟩
  · rintro ⟨-, hentry⟩
    exact hentry rfl
  · intro frames hframes raw hraw
    cases hframes
    fin_cases hraw
    exact ⟨⟨by decide, by decide, by decide⟩, trivial⟩

def blankMessage : Value :=
  .object [("message", .string "  "), ("logentry", .object [("formatted", .string "disk full")])]

theorem blankMessage_disagrees :
    TrimsAlike blankMessage ∧ ∀ largeText,
      ¬ Agree largeText (parseEvent blankMessage) (NormalizedEvent.fromValue blankMessage) := by
  constructor
  · refine .of_object fun m hm => ?_
    fin_cases hm
    · exact .of_string (by decide)
    · refine .of_object fun m hm => ?_
      fin_cases hm
      exact .of_string (by decide)
  · intro largeText h
    have hshown : (parseEvent blankMessage).message = some "disk full" := by decide
    have hevent : (NormalizedEvent.fromValue blankMessage).message = none := by decide
    have := hshown.symm.trans (h.message.trans hevent)
    cases this

end Soika.Frontend
