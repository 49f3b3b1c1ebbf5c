import Soika.Domain.Event
import Soika.Error
import Soika.Library.Prog

/-! # Repository ports

The repository traits, as programs over the calls of a store. The application
code is written against these records and sees no database.
-/

namespace Soika

open Interaction

structure IssueRepository (S : Signature) where
  upsertByFingerprint : IssueUpsert → Prog S Error UpsertOutcome
  setStatus : Id → IssueStatus → Prog S Error Issue
  mute : Id → MuteSpec → Timestamp → Prog S Error Issue
  clearExpiredMutes : Timestamp → Prog S Error ℕ
  overrideFingerprint : Id → String → Prog S Error Issue
  delete : Id → Prog S Error Unit

structure EventRepository (S : Signature) where
  insert : NewEvent → Prog S Error Event
  countInWindow : Id → Timestamp → Prog S Error ℤ
  pruneEventsOverRetention : Id → ℤ → Prog S Error ℕ
  projectIdsWithEvents : Prog S Error (List Id)
  deleteOlderThan : Id → Timestamp → Prog S Error ℕ

structure ProjectRepository (S : Signature) where
  create : ℤ → ℤ → Prog S Error Project
  findById : Id → Prog S Error (Option Project)
  update : Id → ProjectUpdate → Prog S Error Project

/-- The retention that applies where a project sets none, and the URL check of webhooks. -/
structure Config where
  defaultEventsRetention : ℤ
  defaultRetentionDays : ℤ
  isValidWebhookUrl : String → Bool

end Soika
