import Mathlib.Data.Int.Notation
import Mathlib.Data.List.Defs

/-! # Errors

The library error of the server and its one classification: which errors are
transient lock conflicts that the caller may retry.
-/

namespace Soika

/-- `sqlx::Error`, as far as the adapters tell its values apart. -/
inductive DbError where
  | sqlite (code : Option ℤ) (message : String)
  | postgres (sqlstate : String)
  | rowNotFound
  | other (message : String)
  deriving DecidableEq

inductive Error where
  | notFound (what : String)
  | validation (msg : String)
  | auth (msg : String)
  | forbidden (msg : String)
  | conflict (what : String)
  | rateLimited
  | db (e : DbError)
  | dbBusy (what : String) (source : Error)
  | serde (msg : String)
  | mail (msg : String)
  | template (msg : String)
  | internal (msg : String)
  | alertmanager (msg : String)
  deriving DecidableEq

/-- `str::contains` with a string pattern. -/
def containsText (s part : String) : Bool :=
  s.toList.tails.any part.toList.isPrefixOf

def sqliteBusy : ℤ := 5
def sqliteLocked : ℤ := 6

def pgTransientSqlstates : List String := ["40001", "40P01", "55P03"]

namespace DbError

def isBusyCode : DbError → Bool
  | sqlite code message =>
    (code.any fun c => c % 256 = sqliteBusy || c % 256 = sqliteLocked) ||
      containsText message.toLower "database is locked" ||
      containsText message.toLower "database table is locked"
  | postgres sqlstate => pgTransientSqlstates.contains sqlstate
  | rowNotFound => false
  | other _ => false

/-- A UNIQUE-constraint violation: the extended SQLite codes for unique and primary key. -/
def isUniqueViolation : DbError → Bool
  | sqlite code _ => code = some 2067 || code = some 1555
  | postgres sqlstate => sqlstate = "23505"
  | rowNotFound => false
  | other _ => false

end DbError

namespace Error

/-- A transient lock conflict the caller may retry. -/
def isBusy : Error → Bool
  | dbBusy _ _ => true
  | db e => e.isBusyCode
  | _ => false

def isUniqueViolation : Error → Bool
  | db e => e.isUniqueViolation
  | _ => false

end Error

namespace Error

/-- The text of an error; `dbText` is that of the driver's own. -/
def display (dbText : DbError → String) : Error → String
  | notFound what => "not found: " ++ what
  | validation msg => "validation error: " ++ msg
  | auth msg => "authentication error: " ++ msg
  | forbidden msg => "forbidden: " ++ msg
  | conflict what => "conflict: " ++ what
  | rateLimited => "rate limited"
  | db e => "database error: " ++ dbText e
  | dbBusy what _ => "database is busy: " ++ what
  | serde msg => "serialization error: " ++ msg
  | mail msg => "mail error: " ++ msg
  | template msg => "template error: " ++ msg
  | internal msg => "internal error: " ++ msg
  | alertmanager msg => msg

end Error

def rejectIf (p : Prop) [Decidable p] (msg : String) : Except Error Unit :=
  if p then .error (.validation msg) else .ok ()

theorem rejectIf_eq_ok {p : Prop} [Decidable p] {msg : String} {u : Unit} :
    rejectIf p msg = .ok u ↔ ¬ p := by
  unfold rejectIf
  split <;> simp_all

theorem ite_error_eq_ok {ε α : Type} {p : Prop} [Decidable p] {e : ε} {x : Except ε α} {a : α} :
    (if p then .error e else x) = .ok a ↔ ¬ p ∧ x = .ok a := by
  by_cases h : p <;> simp [h]

theorem ite_ok_eq_ok {ε α : Type} {p : Prop} [Decidable p] {e : ε} {x a : α} :
    (if p then .ok x else .error e : Except ε α) = .ok a ↔ p ∧ a = x := by
  by_cases h : p <;> simp [h, eq_comm]

theorem ok_eq_ok {ε α : Type} {x a : α} : (.ok x : Except ε α) = .ok a ↔ a = x := by
  simp [eq_comm]

theorem bind_eq_ok {ε α β : Type} {x : Except ε α} {f : α → Except ε β} {b : β} :
    (x >>= f) = .ok b ↔ ∃ a, x = .ok a ∧ f a = .ok b := by
  cases x <;> simp [bind, Except.bind]

theorem forM_eq_ok {ε α : Type} {f : α → Except ε Unit} {xs : List α} {u : Unit} :
    xs.forM f = .ok u ↔ ∀ x ∈ xs, f x = .ok () := by
  induction xs with
  | nil => simp [pure, Except.pure]
  | cons x xs ih =>
    change (f x >>= fun _ => xs.forM f) = .ok u ↔ _
    rw [bind_eq_ok, List.forall_mem_cons]
    exact ⟨fun ⟨_, hx, hxs⟩ => ⟨hx, ih.mp hxs⟩, fun ⟨hx, hxs⟩ => ⟨(), hx, ih.mpr hxs⟩⟩

theorem bind_eq_error {ε α β : Type} {x : Except ε α} {f : α → Except ε β} {e : ε} :
    (x >>= f) = .error e ↔ x = .error e ∨ ∃ a, x = .ok a ∧ f a = .error e := by
  cases x <;> simp [bind, Except.bind]

end Soika
