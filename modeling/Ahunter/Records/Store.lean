import Ahunter.Lib.Dict
import Ahunter.Sim.Time
import Mathlib.Data.List.Dedup
import Mathlib.Data.String.Basic

/-!
# The experiment record store

Append-only records and events, and the projections and leases that change
with them. The store does not know what its values mean: `R` is what a
record holds, `P` an event's payload, `V` a projection's value and `A` what
an artifact's bytes decode to. One projection is the store's own, the
lifecycle status of a test.

A digest stands for what it covers, so an input hash is the input and a
value hash needs no field.
-/

namespace Ahunter.Records

open Ahunter.Lib
open Ahunter.Sim (Instant)

/-! ## Refusals -/

inductive ErrorKind
  | conflict
  | fenced
  | missing
  | valueError
  | lookupError
  | costUnavailable
  | integrityError
  | fault
deriving DecidableEq, Repr

structure Failure where
  kind : ErrorKind
  message : String
deriving DecidableEq, Repr

abbrev Attempt (α : Type) := Except Failure α

def conflict (message : String) : Failure := ⟨.conflict, message⟩
def fenced (message : String) : Failure := ⟨.fenced, message⟩
def invalidValue (message : String) : Failure := ⟨.valueError, message⟩

/-! ## Statuses -/

inductive Status
  | created
  | preflight
  | queued
  | running
  | evaluating
  | completed
  | blocked
  | failed
  | cancelled
deriving DecidableEq, Repr

/-- `status in TERMINAL` -/
def Status.terminal : Status → Bool
  | .completed | .blocked | .failed | .cancelled => true
  | _ => false

/-- `TRANSITIONS.get(status, set())` -/
def Status.next : Status → List Status
  | .created => [.preflight, .cancelled]
  | .preflight => [.queued, .blocked, .failed, .cancelled]
  | .queued => [.running, .cancelled, .blocked, .failed]
  | .running => [.evaluating, .blocked, .failed, .cancelled]
  | .evaluating => [.completed, .blocked, .failed, .cancelled]
  | _ => []

theorem Status.next_of_terminal {s : Status} (h : s.terminal = true) : s.next = [] := by
  cases s <;> simp_all [Status.terminal, Status.next]

/-! ## Rows -/

/-- `KINDS` -/
inductive RecordKind
  | definition
  | candidatePackage
  | candidateProposal
  | testPlan
  | test
  | phase
  | attempt
  | invocation
  | cost
  | ledger
  | evaluation
  | comparison
  | selection
  | exposure
  | correction
  | preflight
  | sourceDocument
  | sourceExpiration
  | dataBundle
  | bundleImport
  | query
  | searchRequest
  | searchResponse
  | snapshot
  | valuation
  | replayProgram
  | serviceInput
  | serviceControl
deriving DecidableEq, Repr

structure Link where
  relation : String
  targetId : String
deriving DecidableEq, Repr

structure Lease where
  testId : String
  workerId : String
  generation : ℕ
deriving DecidableEq, Repr

/-- What a record holds: the attempt of a worker, which the store writes
itself, or a value of an engine. -/
inductive Body (R : Type)
  | attempt (lease : Lease)
  | data (value : R)
deriving DecidableEq

/-- What `prepare` detaches: everything an insertion writes but its sequence
and its time. The lists are the sorted sets the caller gave. -/
structure Prepared (R : Type) where
  experimentId : String
  kind : RecordKind
  recordId : String
  submissionIdentity : String
  value : Body R
  links : List Link
  artifactHashes : List String
  sourcePolicyHashes : List String
deriving DecidableEq

structure Record (R : Type) extends Prepared R where
  sequence : ℕ
  createdAt : Instant
deriving DecidableEq

inductive Value (V : Type)
  | status (status : Status) (reason : Option String)
  | data (value : V)
deriving DecidableEq

inductive Payload (P : Type)
  | reason (reason : Option String)
  | data (payload : P)
deriving DecidableEq

structure ProjectionUpdate (V : Type) where
  name : String
  expectedSequence : Option ℕ
  value : Value V
deriving DecidableEq

structure OutboxMessage where
  outboxId : String
  destination : String
  payload : String
deriving DecidableEq, Repr

/-- What the fingerprint of an event covers. -/
structure Content (P V : Type) where
  kind : String
  payload : Payload P
  updates : List (ProjectionUpdate V)
  outbox : List OutboxMessage
  simulatedAt : Option Instant
  transitionTo : Option Status
deriving DecidableEq

structure Event (P V : Type) where
  sequence : ℕ
  experimentId : String
  testId : String
  phaseId : String
  actionId : String
  attempt : ℕ
  generation : ℕ
  content : Content P V
  updates : List (ProjectionUpdate V)
  actualAt : Instant
deriving DecidableEq

/-- A projection as it is read: a value and the event that wrote it. -/
structure Revision (V : Type) where
  sequence : ℕ
  value : Value V
deriving DecidableEq

/-- A row of `lagent_worker_leases`. -/
structure LeaseRow where
  workerId : String
  generation : ℕ
  expiresAt : Instant
deriving DecidableEq, Repr

inductive WorkState
  | queued
  | running
  | waiting
  | finished
deriving DecidableEq, Repr

/-- A row of `research_work_queue` of kind `experiment`. -/
structure WorkRow where
  state : WorkState
  claimedBy : Option String
  serviceOwnerId : Option String
deriving DecidableEq, Repr

/-- The row of `research_service_leases` the research service holds. -/
structure ServiceRow where
  ownerId : String
  expiresAt : Instant
deriving DecidableEq, Repr

abbrev ProjectionKey := String ×ₗ String

def projectionKey (testId name : String) : ProjectionKey := toLex (testId, name)

structure OutboxRow where
  sequence : ℕ
  message : OutboxMessage
deriving DecidableEq, Repr

structure Db (R P V : Type) where
  experiments : List String
  records : List (Record R)
  events : List (Event P V)
  projections : Dict ProjectionKey (Revision V)
  outbox : List OutboxRow
  leases : Dict String LeaseRow
  work : Dict String WorkRow
  service : Option ServiceRow
deriving DecidableEq

variable {R P V A : Type}

/-! ## Outside the database -/

inductive FaultPoint
  | afterRecord
  | afterArtifactReferences
  | beforeEvent
  | afterEvent
  | afterProjection
  | afterOutbox
  | beforeCommit
  | afterCommit
deriving DecidableEq, Repr

/-- What one call meets outside the database: the clock, the artifact store
and the failures injected into it. -/
structure Host (A : Type) where
  now : Instant
  artifacts : String → Option A
  faults : FaultPoint → Bool

/-- `self.fault(point)` -/
def Host.fault (host : Host A) (point : FaultPoint) : Attempt Unit :=
  refuse (host.faults point = true) ⟨.fault, reprStr point⟩

/-- `self.artifacts.read_json(content_hash)` -/
def Host.readJson (host : Host A) (contentHash : String) : Attempt A :=
  need (host.artifacts contentHash) ⟨.missing, contentHash⟩

/-! ## Reading -/

namespace Db

/-- `records.read(record_id)` -/
def read (db : Db R P V) (recordId : String) : Attempt (Record R) :=
  need (db.records.find? fun r => r.recordId = recordId)
    ⟨.missing, "experiment record not found"⟩

/-- `records._test(test_id)` -/
def test (db : Db R P V) (testId : String) : Attempt (Record R) := do
  let record ← db.read testId
  refuse (record.kind ≠ .test) (conflict "expected a Test Record")
  pure record

/-- `records.event(sequence)` -/
def event (db : Db R P V) (sequence : ℕ) : Attempt (Event P V) :=
  need (db.events.find? fun e => e.sequence = sequence)
    ⟨.missing, "experiment event not found"⟩

def writes (testId name : String) (e : Event P V) : Bool :=
  e.testId == testId && e.updates.any fun u => u.name == name

/-- `MAX(event_sequence)` of the events that write a projection. -/
def latest (db : Db R P V) (testId name : String) : Option ℕ :=
  ((db.events.filter (writes testId name)).map Event.sequence).max?

variable [DecidableEq V]

/-- `records.projection(test_id, name)` -/
def projection (db : Db R P V) (testId name : String) :
    Attempt (Option (Revision V)) :=
  match db.projections.get? (projectionKey testId name) with
  | none => do
      refuse ((db.latest testId name).isSome = true)
        (conflict "projection missing; rebuild from durable events")
      pure none
  | some row => do
      refuse (some row.sequence ≠ db.latest testId name)
        (conflict "projection is stale; rebuild from durable events")
      let event ← db.event row.sequence
      refuse (event.testId ≠ testId
          ∨ ¬ ∃ u ∈ event.updates, u.name = name ∧ u.value = row.value)
        (conflict "projection is not backed by its event")
      pure (some row)

/-- `records.status(test_id)` -/
def status (db : Db R P V) (testId : String) : Attempt Status := do
  let _ ← db.test testId
  match ← db.projection testId "status" with
  | none => pure .created
  | some ⟨_, .status s _⟩ => pure s
  | some ⟨_, .data _⟩ => .error ⟨.lookupError, "status"⟩

def expired : Failure := fenced "worker lease is expired, superseded or terminal"

/-- `records._assert_lease(lease)` -/
def assertLease (db : Db R P V) (now : Instant) (lease : Lease) :
    Attempt Unit := do
  let row ← need (db.leases.get? lease.testId) expired
  refuse (row.workerId ≠ lease.workerId ∨ row.generation ≠ lease.generation
    ∨ row.expiresAt ≤ now) expired
  let status ← db.status lease.testId
  refuse (status.terminal = true) expired
  match db.work.get? lease.testId with
  | none =>
      refuse (∃ r ∈ db.records, r.kind = .serviceInput ∧
          ⟨"test", lease.testId⟩ ∈ r.links)
        (fenced "shared Research queue binding is missing")
  | some work => do
      let service ← need db.service
        (fenced "shared Research Service no longer owns this Test")
      refuse (work.state ≠ .running ∨ work.claimedBy ≠ some lease.workerId
          ∨ some service.ownerId ≠ work.serviceOwnerId
          ∨ service.expiresAt ≤ now)
        (fenced "shared Research Service no longer owns this Test")

end Db

end Ahunter.Records
