import Ahunter.Records.Commit

/-!
# Rebuilding projections

The projections of a test are kept beside its events and can be computed from
them again. Each update says which revision it was written on top of, so a
replay also checks that none is missing. A rebuild puts what the replay yields
in the place of whatever rows the test has, and the triggers on the table fire
for every row it puts there.
-/

namespace Ahunter.Records

open Ahunter.Lib

variable {R P V A : Type}

def replayUpdate (sequence : ℕ) (result : Dict String (Revision V)) (u : ProjectionUpdate V) :
    Attempt (Dict String (Revision V)) := do
  refuse ((result.get? u.name).map Revision.sequence ≠ u.expectedSequence)
    (conflict "event replay projection revision mismatch")
  pure (result.set u.name ⟨sequence, u.value⟩)

namespace Db

def replayEvent (db : Db R P V) (result : Dict String (Revision V)) (sequence : ℕ) :
    Attempt (Dict String (Revision V)) := do
  let event ← db.event sequence
  walk (replayUpdate event.sequence) result event.updates

/-- `records.replay(test_id)` -/
def replay (db : Db R P V) (testId : String) : Attempt (Dict String (Revision V)) := do
  let _ ← db.test testId
  walk db.replayEvent Dict.empty
    (((db.events.filter fun e => e.testId = testId).map Event.sequence).insertionSort (· ≤ ·))

/-- The transaction of `records.rebuild(lease)`. It does not read the status of
the test, whose projection may be the one that is lost. -/
def rebuildBody (host : Host A) (lease : Lease) :
    Body.Run R P V (Dict String (Revision V)) := fun db => do
  let e := fenced "rebuild requires the current worker lease"
  let row ← need (db.leases.get? lease.testId) e
  refuse (row.workerId ≠ lease.workerId ∨ row.generation ≠ lease.generation
    ∨ row.expiresAt ≤ host.now) e
  let projected ← db.replay lease.testId
  let cleared := { db with
    projections := db.projections.filter fun key _ => (ofLex key).1 ≠ lease.testId }
  pure (projected, projected.entries.foldl (fun db entry =>
    project entry.2.sequence lease.testId db ⟨entry.1, none, entry.2.value⟩) cleared)

/-- `records.rebuild(lease)` -/
def rebuild (host : Host A) (lease : Lease) : Call R P V (Dict String (Revision V)) :=
  transaction host (rebuildBody host lease)

end Db

end Ahunter.Records
