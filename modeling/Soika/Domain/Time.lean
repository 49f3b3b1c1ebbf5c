import Mathlib.Order.Lattice
import Mathlib.Data.Int.Order.Basic
import Soika.Library.Calendar

/-! # Time

`chrono::DateTime<Utc>` and `chrono::Duration`, both in nanoseconds. The instants
carry chrono's range, so an instant outside it cannot be built: the operations
that panic in chrono have no value here.
-/

namespace Soika

/-- `i64::MIN` -/
def i64Min : ℤ := -9223372036854775808

/-- `i64::MAX` -/
def i64Max : ℤ := 9223372036854775807

/-- `DateTime::<Utc>::MIN_UTC`, -262143-01-01T00:00:00Z. -/
def minUtc : ℤ := -8334601228800000000000

/-- `DateTime::<Utc>::MAX_UTC`, the last nanosecond of +262142-12-31. -/
def maxUtc : ℤ := 8210266876799999999999

/-- `DateTime<Utc>`. -/
@[ext]
structure Timestamp where
  nanos : ℤ
  inRange : minUtc ≤ nanos ∧ nanos ≤ maxUtc
  deriving DecidableEq

abbrev Duration := ℤ

/-- The largest number of seconds a `Duration` holds, `i64::MAX / 1000`. -/
def maxSeconds : ℤ := 9223372036854775

namespace Duration

/-- `Duration::seconds`, which panics out of range. -/
def seconds (s : ℤ) : Option Duration :=
  if -maxSeconds ≤ s ∧ s ≤ maxSeconds then some (s * 1000000000) else none

/-- `Duration::days`, which panics out of range. -/
def days (d : ℤ) : Option Duration := seconds (d * 86400)

end Duration

namespace Timestamp

theorem nanos_injective : Function.Injective nanos := fun _ _ h => Timestamp.ext h

instance : LinearOrder Timestamp := @LinearOrder.lift' _ ℤ Int.instLinearOrder nanos nanos_injective

theorem le_iff {t u : Timestamp} : t ≤ u ↔ t.nanos ≤ u.nanos := Iff.rfl

instance : NeZero 8210266876799 := ⟨by decide⟩

/-- The instant `s` seconds after 1970-01-01T00:00:00Z. -/
def atSecond (s : Fin 8210266876799) : Timestamp :=
  ⟨s.val * 1000000000, by have := s.isLt; unfold minUtc maxUtc; omega⟩

def ofNanos (t : ℤ) : Option Timestamp :=
  if h : minUtc ≤ t ∧ t ≤ maxUtc then some ⟨t, h⟩ else none

/-- `DateTime + Duration`, which panics out of range. -/
def add (t : Timestamp) (d : Duration) : Option Timestamp := ofNanos (t.nanos + d)

/-- `DateTime - Duration`, which panics out of range. -/
def sub (t : Timestamp) (d : Duration) : Option Timestamp := ofNanos (t.nanos - d)

/-- Whole microseconds, the precision of a PostgreSQL `TIMESTAMPTZ`. -/
def truncMicros (t : Timestamp) : Timestamp :=
  ⟨t.nanos / 1000 * 1000, by have := t.inRange; unfold minUtc maxUtc at *; omega⟩

theorem truncMicros_mono {t u : Timestamp} (h : t ≤ u) : t.truncMicros ≤ u.truncMicros := by
  have hnanos := le_iff.mp h
  refine le_iff.mpr ?_
  change t.nanos / 1000 * 1000 ≤ u.nanos / 1000 * 1000
  omega

/-- `DateTime::to_rfc3339`. -/
def toRfc3339 (t : Timestamp) : List Char := Calendar.rfc3339 t.nanos

/-- `DateTime::parse_from_rfc3339` reads the text of this instant back. -/
def FourDigitYear (t : Timestamp) : Prop := Calendar.FourDigitYear t.nanos

instance (t : Timestamp) : Decidable t.FourDigitYear :=
  inferInstanceAs (Decidable (Calendar.FourDigitYear _))

theorem ofNanos_eq_some {t : ℤ} {u : Timestamp} : ofNanos t = some u ↔ u.nanos = t := by
  unfold ofNanos
  split
  · rename_i h
    rw [Option.some_inj]
    constructor
    · rintro rfl; rfl
    · intro hu; exact Timestamp.ext hu.symm
  · rename_i h
    refine ⟨nofun, ?_⟩
    rintro rfl
    exact absurd u.inRange h

theorem ofNanos_eq_none {t : ℤ} : ofNanos t = none ↔ t < minUtc ∨ maxUtc < t := by
  unfold ofNanos
  split <;> simp <;> omega

theorem sub_le {t u : Timestamp} {d : Duration} (hd : (0 : ℤ) ≤ d) (h : t.sub d = some u) :
    u ≤ t := by
  rw [sub, ofNanos_eq_some] at h
  exact le_iff.mpr (by omega)

/-- Within the four-digit years the texts compare as the instants. -/
theorem toRfc3339_le_iff {t u : Timestamp} (ht : t.FourDigitYear) (hu : u.FourDigitYear) :
    ¬ u.toRfc3339 < t.toRfc3339 ↔ t ≤ u :=
  Calendar.rfc3339_le_iff ht hu

theorem FourDigitYear.of_between {t u v : Timestamp} (ht : t.FourDigitYear)
    (hv : v.FourDigitYear) (htu : t ≤ u) (huv : u ≤ v) : u.FourDigitYear :=
  Calendar.FourDigitYear.of_between ht hv htu huv

end Timestamp

end Soika
