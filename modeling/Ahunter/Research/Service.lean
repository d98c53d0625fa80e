import Ahunter.Research.Requests

/-!
# The research service

Any number of service processes share one database. A process has two
identities of its own: the owner of the service lease, and the claimant of the
work it runs. It starts by taking the lease and recovering what others left
running, and a tick then claims the head of the queue. A request is claimed
through its row, an experiment test through its queue row and a worker lease.

A process that dies takes no further step and leaves the tables as they are.
-/

namespace Ahunter.Research

open Ahunter.Lib
open Ahunter.Sim (Instant Stamp)

def conflict (message : String) : ResearchError := ⟨.conflict, message⟩

/-- `Fenced(message)` -/
def fenced (message : String) : ResearchError := ⟨.fenced, message⟩

def lookupError (message : String) : ResearchError := ⟨.lookup, message⟩

/-! ## The service lease -/

/-- `datetime.fromtimestamp(instant.timestamp() + seconds, tz=instant.tzinfo)` -/
def later (now : Stamp) (seconds : ℕ) : Stamp :=
  { now with instant := now.instant + 1000000 * seconds }

/-- The lease that `acquire_service_lease` may take over. -/
def ServiceRow.yields (row : ServiceRow) (owner : String) (now : Stamp) : Bool :=
  decide (row.ownerId = owner) || decide (julian row.expiresAt ≤ julian now)

/-- `acquire_service_lease(owner_id, now=…, ttl_seconds=…)`: the tables once the
lease is taken. -/
def acquireServiceLease (owner : String) (now : Stamp) (ttl : ℕ) (db : Db) :
    Attempt (Option Db) := do
  refuse (strip owner = "" ∨ ttl < 1 ∨ 300 < ttl)
    (valueError "invalid Research Service lease input")
  pure (if db.service.all fun row => row.yields owner now then
      some { db with service := some ⟨owner, now, now, later now ttl⟩ }
    else none)

/-- `heartbeat_service_lease(owner_id, now=…, ttl_seconds=…)`: the tables once
the lease is renewed. -/
def heartbeatServiceLease (owner : String) (now : Stamp) (ttl : ℕ) (db : Db) : Option Db :=
  match db.service with
  | some row =>
      if row.ownerId = owner then
        some { db with service := some { row with
          heartbeatAt := now
          expiresAt := later now ttl } }
      else none
  | none => none

/-- `require_service(owner_id, now)` -/
def requireService (owner : String) (now : Stamp) (db : Db) : Attempt Unit :=
  refuse (¬ ∃ row ∈ db.service, row.ownerId = owner ∧ now.instant < row.expiresAt.instant)
    (fenced "shared Research Service lease expired or changed")

/-! ## Starting and claiming -/

def WorkRow.abandoned (work : WorkRow) (serviceOwner claimedBy : String) : Bool :=
  decide (work.kind = .experiment ∧ work.state = .running ∧
    (work.claimedBy ≠ some claimedBy ∨ work.serviceOwnerId ≠ some serviceOwner))

def requeued (work : WorkRow) : WorkRow :=
  { work with state := .queued, claimedBy := none, serviceOwnerId := none }

/-- `recover_experiment_work(service_owner_id=…, claimed_by=…)` -/
def recoverExperimentWork (serviceOwner claimedBy : String) (now : Stamp) (db : Db) :
    Attempt Db := do
  requireService serviceOwner now db
  pure { db with queue := db.queue.map fun _ work =>
    if work.abandoned serviceOwner claimedBy then requeued work else work }

/-- `ResearchService.start()`: the tables once the service has started. -/
def start (leaseOwner claimOwner : String) (ttl : ℕ) (now : Stamp) (db : Db) :
    Attempt (Option Db) := do
  match ← acquireServiceLease leaseOwner now ttl db with
  | none => pure none
  | some db => do
      let r ← recoverInterruptedRequests claimOwner now db
      let db ← recoverExperimentWork leaseOwner claimOwner now r.2
      pure (some db)

/-- `UPDATE research_work_queue SET service_owner_id=? WHERE work_id=?` -/
def Db.ownWork (db : Db) (workId leaseOwner : String) : Db :=
  match db.queue.get? workId with
  | some work =>
      { db with queue := db.queue.set workId { work with serviceOwnerId := some leaseOwner } }
  | none => db

def tickClaim (leaseOwner claimOwner : String) (now : Stamp) (db : Db) : Attempt Db := do
  if (nextWork db).all fun work => decide (work.2.kind = .request) then do
    let r ← claimNextRequest claimOwner now db
    match r.1 with
    | some requestId => pure (r.2.ownWork requestId leaseOwner)
    | none => pure r.2
  else pure db

/-- The transaction of `ResearchService._tick()` that claims a request. -/
def tick (leaseOwner claimOwner : String) (ttl : ℕ) (now : Stamp) (db : Db) : Attempt Db :=
  match heartbeatServiceLease leaseOwner now ttl db with
  | none => pure db
  | some db => tickClaim leaseOwner claimOwner now db

/-! ## Events of a test -/

/-- `records._test(test_id)` -/
def getTest (testId : String) (db : Db) : Attempt TestRow :=
  need (db.tests.get? testId) ⟨.missing, "experiment record not found"⟩

/-- `records._assert_lease(lease)` -/
def assertLease (lease : Records.Lease) (now : Stamp) (db : Db) : Attempt Unit := do
  let expired := fenced "worker lease is expired, superseded or terminal"
  let test ← need (db.tests.get? lease.testId) expired
  let row ← need test.lease expired
  refuse (row.workerId ≠ lease.workerId ∨ row.generation ≠ lease.generation
    ∨ row.expiresAt ≤ now.instant ∨ test.status.terminal = true) expired
  match (db.queue.get? lease.testId).filter fun work => decide (work.kind = .experiment) with
  | none =>
      refuse (test.input.isSome = true) (fenced "shared Research queue binding is missing")
  | some work =>
      refuse (work.state ≠ .running ∨ work.claimedBy ≠ some lease.workerId ∨
          ¬ ∃ service ∈ db.service, some service.ownerId = work.serviceOwnerId ∧
            now.instant < service.expiresAt.instant)
        (fenced "shared Research Service no longer owns this Test")

def assertWriter (testId : String) (lease : Option Records.Lease) (now : Stamp) (db : Db) :
    Attempt Unit :=
  match lease with
  | some lease => do
      refuse (lease.testId ≠ testId) (fenced "lease belongs to another test")
      assertLease lease now db
  | none => do
      let test ← getTest testId db
      refuse (test.status ≠ .created ∧ test.status ≠ .preflight ∧ test.status ≠ .queued)
        (fenced "active test writes require its worker lease")

def checkTransition (testId : String) (lease : Option Records.Lease)
    (target : Option Records.Status) (db : Db) : Attempt Unit :=
  match target with
  | none => pure ()
  | some target => do
      let test ← getTest testId db
      refuse (target ∉ test.status.next) (conflict "invalid or terminal test status transition")
      refuse (target = .running ∧ lease = none)
        (fenced "starting a test requires worker ownership")

def testWork (status : Records.Status) (work : WorkRow) : WorkRow :=
  { work with
    sourceStatus := .test status
    state := if status.terminal then .finished else work.state }

def statusTests (testId : String) (target : Records.Status) (tests : Dict String TestRow) :
    Dict String TestRow :=
  match tests.get? testId with
  | some test => tests.set testId { test with status := target }
  | none => tests

/-- The triggers `experiment_queue_status_insert` and `experiment_queue_status_update`. -/
def statusQueue (testId : String) (target : Records.Status) (queue : Dict String WorkRow) :
    Dict String WorkRow :=
  match queue.get? testId with
  | some work =>
      if work.kind = .experiment then queue.set testId (testWork target work) else queue
  | none => queue

def Db.setStatus (db : Db) (testId : String) (target : Records.Status) : Db :=
  { db with
    tests := statusTests testId target db.tests
    queue := statusQueue testId target db.queue }

/-- What a commit is given besides its lease. -/
structure EventSpec where
  testId : String
  phaseId : String
  actionId : String
  attempt : ℕ
  content : String
  transitionTo : Option Records.Status
deriving DecidableEq

def EventSpec.row (e : EventSpec) (lease : Option Records.Lease) : EventRow where
  testId := e.testId
  phaseId := e.phaseId
  actionId := e.actionId
  attempt := e.attempt
  generation := (lease.map Records.Lease.generation).getD 0
  content := e.content
  transitionTo := e.transitionTo

def EventSpec.prior (e : EventSpec) (db : Db) : Option EventRow :=
  db.events.find? fun x => decide ((x.testId, x.phaseId, x.actionId, x.attempt)
    = (e.testId, e.phaseId, e.actionId, e.attempt))

/-- `records._commit(test_id, lease=…, …, guard=…)` -/
def commitEvent (e : EventSpec) (lease : Option Records.Lease) (guard : Db → Attempt Db)
    (now : Stamp) (db : Db) : Attempt Db := do
  let _ ← getTest e.testId db
  match e.prior db with
  | some prior => do
      refuse ((prior.content, prior.transitionTo) ≠ (e.content, e.transitionTo))
        (conflict "event identity has different content")
      pure db
  | none => do
      assertWriter e.testId lease now db
      checkTransition e.testId lease e.transitionTo db
      let db ← guard db
      let db := { db with events := db.events ++ [e.row lease] }
      pure (match e.transitionTo with
        | some target => db.setStatus e.testId target
        | none => db)

/-- `records.renew(lease, lease_seconds=…)` -/
def renewLease (lease : Records.Lease) (seconds : ℕ) (now : Stamp) (db : Db) : Attempt Db := do
  refuse (seconds = 0) (valueError "positive lease duration required")
  assertLease lease now db
  pure (match db.tests.get? lease.testId with
    | some test => { db with tests := db.tests.set lease.testId { test with
        lease := test.lease.map fun row => { row with expiresAt := (later now seconds).instant } } }
    | none => db)

/-! ## The experiment queue -/

/-- `read_work(connection, work_id)` -/
def readWork (workId : String) (db : Db) : Attempt WorkRow :=
  need (db.queue.get? workId) (lookupError "shared Research work does not exist")

/-- The queue row of a test admitted now. `serviceInput` names its input record. -/
def admittedWork (serviceInput : String → String) (testId : String) (now : Stamp) : WorkRow where
  kind := .experiment
  state := .queued
  sourceStatus := .test .queued
  priority := 0
  enqueuedAt := now
  claimedBy := none
  serviceOwnerId := none
  inputRecordId := some (serviceInput testId)
  cancelRequested := false

/-- `records._insert(prepared)` of the input record of a test -/
def insertInput (testId descriptor : String) (test : TestRow) (db : Db) : Attempt Db :=
  match test.input with
  | some hash => do
      refuse (hash ≠ descriptor) (conflict "record submission identity has different content")
      pure db
  | none => pure { db with tests := db.tests.set testId { test with input := some descriptor } }

/-- `queue.enqueue_fixture(test_id, descriptor)`, for a descriptor of this hash -/
def enqueueFixture (serviceInput : String → String) (testId descriptor : String)
    (fixture : Bool) (now : Stamp) (db : Db) : Attempt Db := do
  let test ← getTest testId db
  refuse (test.typed = false ∨ fixture = false)
    (conflict "shared experiment work requires a typed Test and explicit fixture input")
  match db.queue.get? testId with
  | some existing => do
      let admitted ← insertInput testId descriptor test db
      refuse (existing.inputRecordId ≠ some (serviceInput testId))
        (conflict "shared work input binding changed")
      pure admitted
  | none => do
      refuse (test.status ≠ .queued ∨ test.lease.isSome = true)
        (conflict "admit experiment work before its first worker claim")
      let admitted ← insertInput testId descriptor test db
      pure { admitted with
        queue := admitted.queue.set testId (admittedWork serviceInput testId now) }

def claimHeld (testId serviceOwner claimedBy : String) (work : WorkRow) (now : Stamp) (db : Db) :
    Bool :=
  decide (work.state = .running ∧ work.claimedBy = some claimedBy ∧
      work.serviceOwnerId = some serviceOwner) &&
    ((db.tests.get? testId).bind TestRow.lease).any fun row =>
      decide (row.workerId = claimedBy ∧ now.instant < row.expiresAt)

/-- The guard of `queue.claim(…)` for the row it has read. -/
def claimGuard (testId serviceOwner claimedBy : String) (seen : WorkRow) (now : Stamp)
    (db : Db) : Attempt Db := do
  requireService serviceOwner now db
  refuse (nextWork db ≠ some (testId, seen) ∨ ¬ (seen.state = .queued ∨ seen.state = .running))
    (fenced "shared queue head or ownership changed")
  refuse (seen.state = .running ∧
      (seen.claimedBy ≠ some claimedBy ∨ seen.serviceOwnerId ≠ some serviceOwner))
    (fenced "recover the abandoned service claim before taking its Test")
  pure { db with queue := db.queue.set testId { seen with
    state := .running
    claimedBy := some claimedBy
    serviceOwnerId := some serviceOwner } }

/-- `records.claim(test_id, worker_id=…, lease_seconds=…, guard=…, supersede=True)`,
once its guard has run -/
def claimLease (testId workerId : String) (seconds : ℕ) (now : Stamp) (db : Db) :
    Attempt Db := do
  let lacks := fenced "lease supersession lacks shared service ownership"
  let work ← need ((db.queue.get? testId).filter fun w => decide (w.kind = .experiment)) lacks
  refuse (work.state ≠ .running ∨ work.claimedBy ≠ some workerId ∨
      ¬ ∃ service ∈ db.service, some service.ownerId = work.serviceOwnerId ∧
        now.instant < service.expiresAt.instant) lacks
  let test ← getTest testId db
  refuse (test.status ≠ .queued ∧ test.status ≠ .running ∧ test.status ≠ .evaluating)
    (fenced "only queued or active tests can be claimed")
  let row : Records.LeaseRow := {
    workerId := workerId
    generation := (test.lease.map Records.LeaseRow.generation).getD 0 + 1
    expiresAt := (later now seconds).instant }
  pure { db with tests := db.tests.set testId { test with lease := some row } }

/-- `queue.claim(work_id, service_owner_id=…, claimed_by=…, lease_seconds=…)` -/
def claimExperiment (serviceInput : String → String) (testId serviceOwner claimedBy : String)
    (seconds : ℕ) (now : Stamp) (seen db : Db) : Attempt Db := do
  let work ← readWork testId seen
  refuse (work.kind ≠ .experiment) (conflict "expected experiment work")
  refuse (work.inputRecordId ≠ some (serviceInput testId))
    (conflict "shared work input is bound to another Test")
  requireService serviceOwner now seen
  if claimHeld testId serviceOwner claimedBy work now seen then pure db
  else do
    refuse (claimedBy = "" ∨ seconds = 0)
      (valueError "positive lease duration and worker identity required")
    let db ← claimGuard testId serviceOwner claimedBy work now db
    claimLease testId claimedBy seconds now db

def cancelledWork (work : WorkRow) : WorkRow :=
  { work with
    cancelRequested := true
    state := if work.state = .waiting then .queued else work.state }

/-- `queue.cancel(work_id)` -/
def cancelExperiment (testId : String) (db : Db) : Attempt Db := do
  let work ← readWork testId db
  refuse (work.kind ≠ .experiment) (conflict "business cancellation uses its Request API")
  if work.state = .finished ∨ work.cancelRequested = true then pure db
  else pure { db with queue := db.queue.set testId (cancelledWork work) }

/-- The guard of `queue.park_evaluation(lease)` -/
def parked (testId : String) (db : Db) : Attempt Db :=
  match db.queue.get? testId with
  | some work => pure { db with queue := db.queue.set testId { work with state := .waiting } }
  | none => pure db

/-- The event of `queue.park_evaluation(lease)` -/
def parkEvent (lease : Records.Lease) : EventSpec where
  testId := lease.testId
  phaseId := "service"
  actionId := "evaluation-wait:" ++ toString lease.generation
  attempt := 0
  content := "evaluator_required"
  transitionTo := none

/-- `queue.park_evaluation(lease)`. `finished` tells that the replay of the test
has finished, and `clean` that none of its calls needs a cleanup. -/
def parkEvaluation (lease : Records.Lease) (finished clean : Bool) (now : Stamp) (seen db : Db) :
    Attempt Db := do
  let test ← getTest lease.testId seen
  refuse (test.status ≠ .evaluating)
    (conflict "only an evaluating Test can wait for its evaluator")
  refuse (finished = false) (conflict "evaluation wait requires a finished Episode replay")
  refuse (clean = false) (conflict "evaluation wait requires physical cleanup")
  commitEvent (parkEvent lease) (some lease) (parked lease.testId) now db

/-- `queue.heartbeat(connection, lease, service_owner_id=…, lease_seconds=…)` -/
def heartbeatTest (lease : Records.Lease) (serviceOwner : String) (seconds : ℕ) (now : Stamp)
    (db : Db) : Attempt Db := do
  requireService serviceOwner now db
  let work ← readWork lease.testId db
  refuse (work.state ≠ .running ∨ work.claimedBy ≠ some lease.workerId ∨
      work.serviceOwnerId ≠ some serviceOwner)
    (fenced "shared work heartbeat ownership changed")
  let lost := fenced "experiment heartbeat lost its lease"
  let test ← need (db.tests.get? lease.testId) lost
  let row ← need test.lease lost
  refuse (row.workerId ≠ lease.workerId ∨ row.generation ≠ lease.generation ∨
      julian ⟨row.expiresAt, now.zone⟩ ≤ julian now) lost
  pure { db with tests := db.tests.set lease.testId { test with
    lease := some { row with expiresAt := (later now seconds).instant } } }

def pulse (lease : Records.Lease) (serviceOwner : String) (ttl seconds : ℕ) (now : Stamp)
    (db : Db) : Attempt Db :=
  match heartbeatServiceLease serviceOwner now ttl db with
  | none => pure db
  | some db => do
      let work ← readWork lease.testId db
      if work.state = .finished ∨ work.state = .waiting then pure db
      else heartbeatTest lease serviceOwner seconds now db

/-! ## Processes -/

structure Services (ι : Type) where
  leaseOwnerId : ι → String
  claimOwnerId : ι → String
  lease_injective : Function.Injective leaseOwnerId
  claim_injective : Function.Injective claimOwnerId

/-- How keys are made: of the identity of a submission, and of the service input
of a test. -/
structure Naming where
  digest : String → String
  serviceInput : String → String

inductive ServiceStep
  | start (ttl : ℕ)
  | tick (ttl : ℕ)
  | heartbeat (ttl : ℕ)
  | setBoundary (requestId : String) (boundary : Stamp) (seen : Db)
  | updateProgress (requestId : String) (p : Progress) (seen : Db)
  | complete (requestId : String) (c : Completion) (seen : Db)
  | claimExperiment (testId : String) (seconds : ℕ) (seen : Db)
  | renew (testId : String) (generation seconds : ℕ)
  | pulse (testId : String) (generation ttl seconds : ℕ)
  | commit (e : EventSpec) (generation : ℕ)
  | park (testId : String) (generation : ℕ) (finished clean : Bool) (seen : Db)

inductive ClientStep
  | submit (s : Submission)
  | cancelRequest (requestId : String)
  | register (testId : String) (typed : Bool)
  | commit (e : EventSpec)
  | enqueueFixture (testId descriptor : String) (fixture : Bool)
  | cancelExperiment (testId : String)

def registerTest (testId : String) (typed : Bool) (db : Db) : Attempt Db := do
  refuse (db.tests.contains testId = true)
    (conflict "record submission identity has different content")
  pure { db with tests := db.tests.set testId ⟨typed, .created, none, none⟩ }

section Steps

variable {ι : Type} (services : Services ι) (naming : Naming)

def Services.lease (k : ι) (testId : String) (generation : ℕ) : Records.Lease :=
  ⟨testId, services.claimOwnerId k, generation⟩

def serviceReturns (k : ι) (now : Stamp) (db : Db) : ServiceStep → Attempt Db
  | .start ttl => do
      let started ← start (services.leaseOwnerId k) (services.claimOwnerId k) ttl now db
      pure (started.getD db)
  | .tick ttl => tick (services.leaseOwnerId k) (services.claimOwnerId k) ttl now db
  | .heartbeat ttl =>
      pure ((heartbeatServiceLease (services.leaseOwnerId k) now ttl db).getD db)
  | .setBoundary requestId boundary seen =>
      left (setRequestBoundary requestId boundary (some (services.claimOwnerId k)) now seen db)
  | .updateProgress requestId p seen =>
      left (updateRequestProgress requestId p (some (services.claimOwnerId k)) now seen db)
  | .complete requestId c seen =>
      left (completeRequest requestId c (some (services.claimOwnerId k)) now seen db)
  | .claimExperiment testId seconds seen =>
      claimExperiment naming.serviceInput testId (services.leaseOwnerId k)
        (services.claimOwnerId k) seconds now seen db
  | .renew testId generation seconds =>
      renewLease (services.lease k testId generation) seconds now db
  | .pulse testId generation ttl seconds =>
      pulse (services.lease k testId generation) (services.leaseOwnerId k) ttl seconds now db
  | .commit e generation =>
      commitEvent e (some (services.lease k e.testId generation)) pure now db
  | .park testId generation finished clean seen =>
      parkEvaluation (services.lease k testId generation) finished clean now seen db

def clientReturns (now : Stamp) (db : Db) : ClientStep → Attempt Db
  | .submit s => left (submitRequest naming.digest s now db)
  | .cancelRequest requestId => left (requestCancel requestId now db)
  | .register testId typed => registerTest testId typed db
  | .commit e => commitEvent e none pure now db
  | .enqueueFixture testId descriptor fixture =>
      enqueueFixture naming.serviceInput testId descriptor fixture now db
  | .cancelExperiment testId => cancelExperiment testId db

inductive Step (ι : Type)
  | service (k : ι) (step : ServiceStep)
  | client (step : ClientStep)

def Step.returns (now : Stamp) (db : Db) : Step ι → Attempt Db
  | .service k step => serviceReturns services naming k now db step
  | .client step => clientReturns naming now db step

def Step.after (step : Step ι) (now : Stamp) (db : Db) : Db :=
  match step.returns services naming now db with
  | .ok db' => db'
  | .error _ => db

/-- Whether `start` takes the lease. -/
def Starts (k : ι) (ttl : ℕ) (now : Stamp) (db db' : Db) : Prop :=
  start (services.leaseOwnerId k) (services.claimOwnerId k) ttl now db = .ok (some db')

end Steps

end Ahunter.Research
