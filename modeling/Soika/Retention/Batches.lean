import Soika.Adapters.Database
import Soika.Adapters.PruningRuns
import Soika.Library.Sum
import Soika.Scheduler

/-! # Deletions in batches

A sweep statement by statement. Each deletion of a repository is a loop of statements, every one of
which deletes at most a batch of rows and is retried on its own.
-/

namespace Soika

open Interaction Table

/-- One `DELETE` of a sweep. -/
inductive BatchCmd where
  | prune (projectId : Id) (retentionEvents : ℤ)
  | older (projectId : Id) (cutoff : Timestamp)

abbrev batchCalls : Signature := ⟨BatchCmd, fun _ => ℕ⟩

abbrev storeCalls : Signature := ⟨StoreCmd, StoreCmd.Reply⟩

abbrev sweepCalls : Signature := storeCalls.sum batchCalls

/-- `DELETE … WHERE id IN (…)`, with the rows it affected. -/
def deleteIds (doomed : List Id) (s : Store) : ℕ × Store :=
  (s.events.countP fun e => doomed.contains e.id,
    { s with events := s.events.filter fun e => !doomed.contains e.id })

/-- The event is of the project, and was received before the cutoff. -/
def Backend.older (B : Backend) (projectId : Id) (cutoff : Timestamp) (e : Event) : Bool :=
  e.projectId = projectId && !B.le cutoff e.receivedAt

/-- A database as a sweep sees it, with the order in which it finds the rows of a statement that
asks for none. -/
structure SweepHost extends Database where
  ordered : backend.Ordered
  write : WritePolicy
  arrange : List Event → List Event
  arrange_perm : ∀ rows, (arrange rows).Perm rows
  arrangeIds : List Id → List Id
  arrangeIds_perm : ∀ ids, (arrangeIds ids).Perm ids

namespace SweepHost

variable (H : SweepHost)

def pruneCall (projectId : Id) (retentionEvents : ℤ) : PruneCall :=
  ⟨H.backend, H.write, projectId, retentionEvents⟩

def doomed (s : Store) : BatchCmd → List Id
  | .prune projectId retentionEvents => (H.pruneCall projectId retentionEvents).doomed s.events
  | .older projectId cutoff =>
    ((H.arrange (s.events.filter (H.backend.older projectId cutoff))).take
      H.write.deleteBatch).map Event.id

def batch (c : BatchCmd) (s : Store) : ℕ × Store := deleteIds (H.doomed s c) s

def batches : Machine batchCalls Error Store := ⟨fun c s => (.ok (H.batch c s).1, (H.batch c s).2)⟩

/-- A statement that both adapters share; `SELECT DISTINCT` asks for no order. -/
def sharedStep : (c : StoreCmd) → Store → Except Error c.Reply × Store
  | .projectIdsWithEvents, s => (.ok (H.arrangeIds (projectIdsWithEvents s)), s)
  | c, s => storeStep H.backend c s

theorem sharedStep_state (c : StoreCmd) (s : Store) :
    (H.sharedStep c s).2 = (storeStep H.backend c s).2 := by
  cases c <;> rfl

def sweeps : Machine sweepCalls Error Store := Machine.sum ⟨H.sharedStep⟩ H.batches

/-- `retry_write` of one statement, with so many retries left. -/
def retryBatch (what : String) (c : BatchCmd) : ℕ → Prog sweepCalls Error ℕ
  | 0 => do
    match ← @Prog.attempt sweepCalls Error (.inr c) with
    | .ok deleted => return deleted
    | .error e => Prog.fail (if e.isBusy then .dbBusy what e else e)
  | retries + 1 => do
    match ← @Prog.attempt sweepCalls Error (.inr c) with
    | .ok deleted => return deleted
    | .error e => if e.isBusy then retryBatch what c retries else Prog.fail e

/-- `delete_in_batches`, which a short batch ends. The first argument bounds how many batches are
followed. -/
def deleteInBatches (what : String) (c : BatchCmd) :
    ℕ → ℕ → Prog sweepCalls Error ℕ
  | 0, _ => .abort
  | fuel + 1, total => do
    let deleted ← retryBatch what c H.write.maxRetries
    if deleted < H.write.deleteBatch then return total + deleted
    else deleteInBatches what c fuel (total + deleted)

def ask (c : StoreCmd) : Prog sweepCalls Error c.Reply :=
  @Prog.ask sweepCalls Error (.inl c)

def batchedEvents (fuel : ℕ) : EventRepository sweepCalls where
  insert new := ask (.insertEvent new)
  countInWindow issueId since := ask (.countInWindow issueId since)
  pruneEventsOverRetention projectId keep :=
    H.deleteInBatches "prune events over retention" (.prune projectId keep) fuel 0
  projectIdsWithEvents := ask .projectIdsWithEvents
  deleteOlderThan projectId cutoff :=
    H.deleteInBatches "delete events older than cutoff" (.older projectId cutoff) fuel 0

def sweptProjects : ProjectRepository sweepCalls := projectsOver ask

def runRetention (fuel : ℕ) (config : Config) (clock : Id → Timestamp) :
    Prog sweepCalls Error ℕ :=
  Soika.runRetention sweptProjects (H.batchedEvents fuel) config clock

end SweepHost

end Soika
