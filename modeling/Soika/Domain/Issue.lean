import Soika.Domain.Time

/-! # Issues

A group of events that share a fingerprint, its lifecycle state and the columns
of a mute.
-/

namespace Soika

/-- A random UUID, drawn from the supply of the store. -/
abbrev Id := ℕ

inductive IssueStatus where
  | unresolved
  | resolved
  | muted
  deriving DecidableEq

structure Issue where
  id : Id
  shortId : String
  projectId : Id
  fingerprint : String
  title : String
  culprit : Option String
  level : Option String
  environment : Option String
  release : Option String
  status : IssueStatus
  mutedAt : Option Timestamp
  mutedUntil : Option Timestamp
  muteThreshold : Option ℤ
  muteWindowSeconds : Option ℤ
  firstSeen : Timestamp
  lastSeen : Timestamp
  eventCount : ℤ
  createdAt : Timestamp
  updatedAt : Timestamp
  deriving DecidableEq

inductive MuteSpec where
  | forever
  | until (t : Timestamp)
  | eventRate (threshold windowSeconds : ℤ)
  deriving DecidableEq

/-- Fields used to create or update an issue by fingerprint during ingestion. -/
structure IssueUpsert where
  projectId : Id
  fingerprint : String
  title : String
  culprit : Option String
  level : Option String
  environment : Option String
  release : Option String
  seenAt : Timestamp
  deriving DecidableEq

/-- What an upsert tells ingestion: the row after it, and whether it is new or reopened. -/
structure UpsertOutcome where
  issue : Issue
  isNew : Bool
  isRegression : Bool
  deriving DecidableEq

namespace Issue

def timestamps (i : Issue) : List Timestamp :=
  i.mutedAt.toList ++ i.mutedUntil.toList ++ [i.firstSeen, i.lastSeen, i.createdAt, i.updatedAt]

/-- Status and mute columns: what an operator decides about an issue. -/
structure Standing where
  status : IssueStatus
  mutedAt : Option Timestamp
  mutedUntil : Option Timestamp
  muteThreshold : Option ℤ
  muteWindowSeconds : Option ℤ
  deriving DecidableEq

def standing (i : Issue) : Standing :=
  ⟨i.status, i.mutedAt, i.mutedUntil, i.muteThreshold, i.muteWindowSeconds⟩

end Issue

end Soika
