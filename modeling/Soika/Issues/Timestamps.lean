import Soika.Adapters.Store
import Soika.Api.Issues
import Soika.Library.Rfc3339

/-! # Timestamps as text

How SQLite columns hold instants. The clock of the server and the end of a mute are written
as RFC 3339 text; both come back, and compare as text like the instants, as long as no year
has more than four digits.
-/

namespace Soika

def tsToDb (ts : Timestamp) : String := String.ofList ts.toRfc3339

/-- Parse a timestamp from its text in the database; `cause` is what chrono says of a text
that it does not read. -/
def tsFromDb (cause : String → String) (s : String) : Except Error Timestamp :=
  match (Calendar.parseRfc3339 s.toList).bind Timestamp.ofNanos with
  | some ts => .ok ts
  | none => .error (.internal ("invalid timestamp in db: " ++ s ++ ": " ++ cause s))

variable {cause : String → String}

/-- The instants that come back are those of four-digit years. -/
theorem tsFromDb_tsToDb {ts : Timestamp} :
    tsFromDb cause (tsToDb ts) = .ok ts ↔ ts.FourDigitYear := by
  have htext : (tsToDb ts).toList = Calendar.rfc3339 ts.nanos := String.toList_ofList
  rw [tsFromDb, htext]
  by_cases h : ts.FourDigitYear
  · rw [Calendar.parseRfc3339_rfc3339 h, Option.bind_some, Timestamp.ofNanos_eq_some.mpr rfl]
    exact iff_of_true rfl h
  · rw [Calendar.parseRfc3339_of_sign h]
    exact iff_of_false nofun h

theorem sqlite_decodes_iff {ts : Timestamp} :
    sqlite.decodes ts = true ↔ tsFromDb cause (tsToDb ts) = .ok ts := by
  rw [tsFromDb_tsToDb]
  exact decide_eq_true_iff

theorem tsToDb_lt_iff {t u : Timestamp} (ht : t.FourDigitYear) (hu : u.FourDigitYear) :
    tsToDb t < tsToDb u ↔ t < u := by
  have htext : tsToDb t < tsToDb u ↔ t.toRfc3339 < u.toRfc3339 := by
    change (tsToDb t).toList < (tsToDb u).toList ↔ _
    simp only [tsToDb, String.toList_ofList]
  have hle : ¬ t.toRfc3339 < u.toRfc3339 ↔ u ≤ t := Timestamp.toRfc3339_le_iff hu ht
  rw [htext, ← not_iff_not, hle, not_lt]

/-- A value that the server writes: a reading of its clock, or the end of a requested mute. -/
inductive StoredTime where
  | clock (now : Timestamp)
  | until (req : MuteRequest) (now : Timestamp)

namespace StoredTime

/-- The instant that is written; a request that is refused or aborts writes none. -/
def instant : StoredTime → Option Timestamp
  | clock now => some now
  | «until» req now =>
    match req.toSpec now with
    | some (.ok (.until ts)) => some ts
    | _ => none

/-- A clock before the year 10000, and an accepted duration that ends before it. -/
def FourDigits : StoredTime → Prop
  | clock now => now.FourDigitYear
  | «until» req now => ∀ secs, req.Lasts secs → DurationInRange secs now →
      Calendar.FourDigitYear (now.nanos + secs * 1000000000)

theorem until_instant_iff {req : MuteRequest} {now ts : Timestamp} :
    («until» req now).instant = some ts ↔
      ∃ secs, req.Lasts secs ∧ DurationInRange secs now ∧
        ts.nanos = now.nanos + secs * 1000000000 := by
  have hspec : («until» req now).instant = some ts ↔ req.toSpec now = some (.ok (.until ts)) := by
    rw [instant]
    split
    · rename_i h
      rw [h]
      simp
    · rename_i h
      exact iff_of_false nofun (h ts)
  rw [hspec, MuteRequest.toSpec_eq_until]

theorem fourDigits_iff {w : StoredTime} :
    w.FourDigits ↔ ∀ ts, w.instant = some ts → ts.FourDigitYear := by
  cases w with
  | clock now => simp [FourDigits, instant]
  | «until» req now =>
    simp only [FourDigits, until_instant_iff]
    constructor
    · rintro h ts ⟨secs, hlasts, hin, hts⟩
      have := h secs hlasts hin
      rwa [← hts] at this
    · intro h secs hlasts hin
      have hlow := now.inRange.1
      have hpos := hlasts.2.2.2
      let ts : Timestamp := ⟨now.nanos + secs * 1000000000, by omega, hin.2⟩
      exact h ts ⟨secs, hlasts, hin, rfl⟩

end StoredTime

/-- The timestamp comes back from its text, which compares with another text like the instants. -/
def Faithful (cause : String → String) (t u : Timestamp) : Prop :=
  tsFromDb cause (tsToDb t) = .ok t ∧ (tsToDb t < tsToDb u ↔ t < u)

/-- The codec is faithful on all that was ever written exactly when no year of it has more
than four digits. -/
theorem stored_times_faithful_iff (cause : String → String) (writes : List StoredTime) :
    (∀ w ∈ writes, ∀ w' ∈ writes, ∀ t u, w.instant = some t → w'.instant = some u →
      Faithful cause t u) ↔ ∀ w ∈ writes, w.FourDigits := by
  simp only [StoredTime.fourDigits_iff]
  constructor
  · intro h w hw t ht
    exact tsFromDb_tsToDb.mp (h w hw w hw t t ht ht).1
  · intro h w hw w' hw' t u ht hu
    exact ⟨tsFromDb_tsToDb.mpr (h w hw t ht), tsToDb_lt_iff (h w hw t ht) (h w' hw' u hu)⟩

def farMute : MuteRequest := ⟨some 252455616000, none, none⟩

def midYear : Timestamp := .atSecond 1751328000

def farEnd : Timestamp := ⟨254206944000000000000, by decide⟩

/-- So far a mute is accepted; its end is not read back, and as a text it lies in the past. -/
theorem farMute_unfaithful :
    farMute.toSpec midYear = some (.ok (.until farEnd)) ∧ midYear < farEnd ∧
      tsToDb farEnd < tsToDb midYear ∧ ∀ cause, tsFromDb cause (tsToDb farEnd) ≠ .ok farEnd := by
  refine ⟨?_, by decide, ?_, fun cause h => ?_⟩
  · exact MuteRequest.toSpec_eq_until.mpr
      ⟨252455616000, ⟨rfl, rfl, rfl, by decide⟩, by unfold DurationInRange; decide, by decide⟩
  · change (tsToDb farEnd).toList < (tsToDb midYear).toList
    simp only [tsToDb, String.toList_ofList]
    decide
  · have hyear : ¬ farEnd.FourDigitYear := by decide
    exact hyear (tsFromDb_tsToDb.mp h)

end Soika
