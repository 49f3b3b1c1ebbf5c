import Mathlib.Data.List.Infix
import Soika.Domain.Event

/-! # Projects

The columns of a project that ingestion does not read: how it is addressed, who owns
it, and how its alerts are sent; and the rule for its public address.
-/

namespace Soika

/-- Project alert classes. Event levels remain unchanged. -/
inductive AlertSeverity where
  | critical
  | warning
  | info
  deriving DecidableEq

structure RefreshInterval where
  seconds : ℤ
  inRange : 10 ≤ seconds ∧ seconds ≤ 86400
  deriving DecidableEq

/-- A row of the projects table. -/
structure ProjectRow extends Project where
  /-- Short, URL-friendly public code. -/
  shortId : String
  teamId : Id
  name : String
  slug : String
  /-- DSN public key used for ingestion auth. -/
  dsnPublicKey : String
  webhookUrl : Option String
  /-- An absent class inherits the global default. -/
  alertmanagerSeverity : Option AlertSeverity
  /-- An absent interval inherits the global one. -/
  alertmanagerInterval : Option RefreshInterval
  createdAt : Timestamp
  updatedAt : Timestamp
  orphanedAt : Option Timestamp
  deriving DecidableEq

def SLUG_MAX_LEN : ℕ := 48

/-- Why a string is not an acceptable project slug. -/
inductive SlugError where
  | empty
  | tooLong
  | invalidChar
  | misplacedDash
  deriving DecidableEq

def SlugError.message : SlugError → String
  | empty => "must not be empty"
  | tooLong => "must be at most 48 characters"
  | invalidChar => "may contain only lowercase latin letters, digits and '-'"
  | misplacedDash => "must not start or end with '-' or contain '--'"

/-- The strict slug rule: words of `a-z` and `0-9`, separated by single dashes. -/
def validateSlug (slug : String) : Except SlugError Unit :=
  let chars := slug.toList
  if chars = [] then .error .empty
  else if SLUG_MAX_LEN < slug.utf8ByteSize then .error .tooLong
  else if ¬ chars.all fun c => c.isLower || c.isDigit || c = '-' then .error .invalidChar
  else if chars.head? = some '-' ∨ chars.getLast? = some '-' ∨ ['-', '-'] <:+: chars then
    .error .misplacedDash
  else .ok ()

end Soika
