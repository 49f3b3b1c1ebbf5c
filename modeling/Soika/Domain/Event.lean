import Soika.Domain.Issue
import Soika.Domain.Json

/-! # Events and projects

A captured occurrence as it is stored, and the normalized view that grouping
works on.
-/

namespace Soika

structure Event where
  id : Id
  eventId : String
  issueId : Id
  projectId : Id
  payload : Value
  receivedAt : Timestamp

structure NewEvent where
  eventId : String
  issueId : Id
  projectId : Id
  payload : Value
  receivedAt : Timestamp

/-- The owner of issues, with its retention settings (0 days: no age limit). -/
structure Project where
  id : Id
  retentionEvents : ℤ
  retentionDays : ℤ
  muted : Bool
  deriving DecidableEq

/-- The settings an update may change; the other columns keep their value. -/
structure ProjectUpdate where
  retentionEvents : Option ℤ
  retentionDays : Option ℤ
  muted : Option Bool

/-- A single stack frame. -/
structure Frame where
  module : Option String
  function : Option String
  filename : Option String
  absPath : Option String
  lineno : Option ℤ
  colno : Option ℤ
  inApp : Option Bool
  contextLine : Option String
  preContext : List String
  postContext : List String
  deriving DecidableEq

structure Stacktrace where
  frames : List Frame
  deriving DecidableEq

/-- The parts of an event that matter to grouping and display. -/
structure NormalizedEvent where
  exceptionType : Option String
  exceptionValue : Option String
  message : Option String
  level : Option String
  stacktrace : Option Stacktrace
  fingerprint : List String
  deriving DecidableEq

end Soika
