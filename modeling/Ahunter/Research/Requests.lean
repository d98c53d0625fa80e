import Ahunter.Lib.Text
import Ahunter.Records.Store
import Mathlib.Data.List.MinMax

/-!
# Research requests and the shared queue

The tables behind the research service: requests, the record of each that has
ended, one queue for requests and experiment tests, the lease of the service,
and what the queue needs to know of a test. Every operation is one transaction.
It either yields its result and the tables it leaves, or raises and leaves them
as they were.

The queue has a row for every request, which triggers keep in step with it. The
events of a request, which nothing here reads, are left out, and a submission
key is whatever a digest makes of an identity.

A write takes the lock of the database and an earlier read does not. An operation
that reads before its first write therefore has the tables it reads, `seen`,
besides those it writes to.
-/

namespace Ahunter.Research

open Ahunter.Lib
open Ahunter.Sim (Instant Stamp)

/-! ## Errors -/

inductive ErrorKind
  | value
  | ownershipLost
  | integrity
  | lookup
  | conflict
  | fenced
  | missing
deriving DecidableEq, Repr

structure ResearchError where
  kind : ErrorKind
  message : String
deriving DecidableEq, Repr

abbrev Attempt (α : Type) := Except ResearchError α

def valueError (message : String) : ResearchError := ⟨.value, message⟩

/-- `ResearchRequestOwnershipLost(message)` -/
def ownershipLost (message : String) : ResearchError := ⟨.ownershipLost, message⟩

def integrityError (message : String) : ResearchError := ⟨.integrity, message⟩

/-! ## Rows -/

inductive RequestStatus
  | queued
  | running
  | passed
  | partially
  | blocked
  | failed
  | cancelled
deriving DecidableEq, Repr

/-- `status in REQUEST_TERMINAL_STATUSES` -/
def RequestStatus.terminal : RequestStatus → Bool
  | .queued | .running => false
  | _ => true

/-- `status in {"passed", "partial"}` -/
def RequestStatus.published : RequestStatus → Bool
  | .passed | .partially => true
  | _ => false

/-- `_REQUEST_PHASES` -/
inductive Phase
  | queued
  | preflight
  | snapshot
  | agents
  | decision
  | publishing
  | complete
  | cancelled
deriving DecidableEq, Repr

/-- `_REQUEST_REASON_CODES` -/
inductive Reason
  | cancelled
  | cancelRequested
  | preflightFailed
  | snapshotUnavailable
  | providerUnavailable
  | taxonomyStale
  | informationUnavailable
  | agentTimeout
  | agentInvalid
  | qualityBlocked
  | pipelineBlocked
  | pipelineFailed
  | persistenceFailed
  | publicationFailed
  | serviceRecovery
  | serviceUnavailable
deriving DecidableEq, Repr

inductive Origin
  | web
  | cli
  | scheduled
  | legacy
deriving DecidableEq, Repr

structure VersionRef where
  id : String
  version : ℕ
deriving DecidableEq, Repr

/-- A `ResearchSubject`: the whole market, or a security by its code. -/
inductive Subject
  | market (name : Option String)
  | security (code : String) (name : Option String)
deriving DecidableEq, Repr

/-- A row of `research_requests`, under its `request_id`. -/
structure RequestRow where
  submissionKey : String
  team : VersionRef
  subject : Subject
  origin : Origin
  requestedAt : Stamp
  acceptedAt : Stamp
  boundaryAt : Option Stamp
  status : RequestStatus
  cancelRequested : Bool
  phase : Phase
  agentsCompleted : ℤ
  agentsTotal : ℤ
  decisionStage : Option String
  reasonCode : Option Reason
  cycleId : Option String
  reportJsonHash : Option String
  reportMarkdownHash : Option String
  publishedAt : Option Stamp
  rerunOf : Option String
  claimedBy : Option String
  claimedAt : Option Stamp
  lastUpdatedAt : Stamp
  createdAt : Stamp
  finishedAt : Option Stamp
deriving DecidableEq

/-- A row of `research_records`, under its `request_id`. -/
structure RecordRow where
  recordId : String
  team : VersionRef
  subject : Subject
  origin : Origin
  requestedAt : Stamp
  acceptedAt : Stamp
  boundaryAt : Option Stamp
  status : RequestStatus
  phase : Phase
  reasonCode : Option Reason
  cycleId : Option String
  reportJsonHash : Option String
  reportMarkdownHash : Option String
  publishedAt : Option Stamp
  rerunOf : Option String
  createdAt : Stamp
deriving DecidableEq

inductive WorkKind
  | request
  | experiment
deriving DecidableEq, Repr

abbrev WorkState := Records.WorkState

inductive SourceStatus
  | request (status : RequestStatus)
  | test (status : Records.Status)
deriving DecidableEq, Repr

/-- A row of `research_work_queue`, under its `work_id`. -/
structure WorkRow where
  kind : WorkKind
  state : WorkState
  sourceStatus : SourceStatus
  priority : ℕ
  enqueuedAt : Stamp
  claimedBy : Option String
  serviceOwnerId : Option String
  inputRecordId : Option String
  cancelRequested : Bool
deriving DecidableEq

/-- The row of `research_service_leases` named "research-service". -/
structure ServiceRow where
  ownerId : String
  acquiredAt : Stamp
  heartbeatAt : Stamp
  expiresAt : Stamp
deriving DecidableEq

/-- What the queue reads of an experiment test: its status, its worker lease,
whether it is typed (`registration_version == 1`) and the hash of the descriptor
of its service input. -/
structure TestRow where
  typed : Bool
  status : Records.Status
  lease : Option Records.LeaseRow
  input : Option String
deriving DecidableEq

structure EventRow where
  testId : String
  phaseId : String
  actionId : String
  attempt : ℕ
  generation : ℕ
  content : String
  transitionTo : Option Records.Status
deriving DecidableEq

structure Db where
  requests : Dict String RequestRow
  records : Dict String RecordRow
  queue : Dict String WorkRow
  service : Option ServiceRow
  tests : Dict String TestRow
  events : List EventRow
deriving DecidableEq

def Db.empty : Db := ⟨Dict.empty, Dict.empty, Dict.empty, none, Dict.empty, []⟩

/-! ## Triggers -/

/-- `CASE WHEN status IN ('queued','running') THEN status ELSE 'finished' END` -/
def RequestStatus.workState : RequestStatus → WorkState
  | .queued => .queued
  | .running => .running
  | _ => .finished

/-- What `research_request_queue_insert` inserts. -/
def newWork (row : RequestRow) : WorkRow where
  kind := .request
  state := row.status.workState
  sourceStatus := .request row.status
  priority := if row.origin = .scheduled then 1 else 0
  enqueuedAt := row.acceptedAt
  claimedBy := row.claimedBy
  serviceOwnerId := none
  inputRecordId := none
  cancelRequested := row.cancelRequested

/-- What `research_request_queue_update` makes of a queue row. -/
def mirrored (row : RequestRow) (work : WorkRow) : WorkRow :=
  { work with
    state := row.status.workState
    sourceStatus := .request row.status
    claimedBy := row.claimedBy
    cancelRequested := row.cancelRequested
    serviceOwnerId := if row.status = .running then work.serviceOwnerId else none }

def mirrorQueue (requestId : String) (row : RequestRow) (queue : Dict String WorkRow) :
    Dict String WorkRow :=
  match queue.get? requestId with
  | some work => if work.kind = .request then queue.set requestId (mirrored row work) else queue
  | none => queue

def Db.setRequest (db : Db) (requestId : String) (row : RequestRow) : Db :=
  { db with
    requests := db.requests.set requestId row
    queue := mirrorQueue requestId row db.queue }

/-- `UPDATE research_requests SET … WHERE request_id = ? AND …`, when it
changes a row. -/
def Db.updateRequest (db : Db) (requestId : String) (p : RequestRow → Bool)
    (f : RequestRow → RequestRow) : Option Db :=
  match db.requests.get? requestId with
  | some row => if p row then some (db.setRequest requestId (f row)) else none
  | none => none

/-! ## Reading -/

/-- `get_request(request_id)` -/
def getRequest (requestId : String) (db : Db) : Attempt RequestRow :=
  need (db.requests.get? requestId) (valueError "unknown Research Request")

/-- `julianday(text)`, which keeps milliseconds. -/
def julian (at_ : Stamp) : ℤ := (at_.instant + 500) / 1000

/-- `state='running' OR (state='queued' AND (kind='experiment' OR cancel_requested=0))` -/
def WorkRow.selectable (work : WorkRow) : Bool :=
  decide (work.state = .running) ||
    (decide (work.state = .queued) && (decide (work.kind = .experiment) || !work.cancelRequested))

abbrev WorkKey := ℕ ×ₗ ℕ ×ₗ ℤ ×ₗ String

-- Mathlib's own order of the integers as a complete lattice does not compute.
local instance clockOrder : Preorder ℤ := Int.instLinearOrder.toPreorder

/-- The order of `next_work`. -/
def workKey (e : String × WorkRow) : WorkKey :=
  toLex (if e.2.state = .running then 0 else 1,
    toLex (e.2.priority, toLex (julian e.2.enqueuedAt, e.1)))

/-- `next_work(connection)` -/
def nextWork (db : Db) : Option (String × WorkRow) :=
  (db.queue.entries.filter fun e => e.2.selectable).argmin workKey

/-! ## Submitting -/

/-- What `submit_request` is given. -/
structure Submission where
  team : VersionRef
  subject : Subject
  origin : Origin
  identity : String
  requestedAt : Option Stamp
  acceptedAt : Option Stamp
  boundary : Option Stamp
  rerunOf : Option String
deriving DecidableEq

/-- `value.astimezone(other.tzinfo)` -/
def inZoneOf (other value : Stamp) : Stamp := { value with zone := other.zone }

def newRequest (submissionKey : String) (s : Submission) (requested accepted now : Stamp) :
    RequestRow where
  submissionKey := submissionKey
  team := s.team
  subject := s.subject
  origin := s.origin
  requestedAt := requested
  acceptedAt := inZoneOf requested accepted
  boundaryAt := s.boundary.map (inZoneOf requested)
  status := .queued
  cancelRequested := false
  phase := .queued
  agentsCompleted := 0
  agentsTotal := 0
  decisionStage := none
  reasonCode := none
  cycleId := none
  reportJsonHash := none
  reportMarkdownHash := none
  publishedAt := none
  rerunOf := s.rerunOf
  claimedBy := none
  claimedAt := none
  lastUpdatedAt := now
  createdAt := now
  finishedAt := none

/-- `f"request-{submission_key[:32]}"` -/
def requestIdOf (submissionKey : String) : String :=
  "request-" ++ String.ofList (submissionKey.toList.take 32)

def checkParent (rerunOf : Option String) (db : Db) : Attempt Unit :=
  match rerunOf with
  | none => pure ()
  | some parent => do
      let row ← getRequest parent db
      refuse (row.status.terminal = false)
        (valueError "only terminal Research Request may be rerun")

/-- `submit_request(…)` -/
def submitRequest (digest : String → String) (s : Submission) (now : Stamp) (db : Db) :
    Attempt (RequestRow × Db) := do
  refuse (strip s.identity = "" ∨ 256 < s.identity.length)
    (valueError "invalid Research Request submission identity")
  let requested := s.requestedAt.getD now
  let accepted := s.acceptedAt.getD requested
  refuse (accepted.instant < requested.instant)
    (valueError "accepted time cannot be earlier than requested time")
  refuse (∃ b ∈ s.boundary, b.instant < requested.instant ∧ s.origin ≠ .legacy)
    (valueError "Research Boundary cannot be earlier than requested time")
  checkParent s.rerunOf db
  let key := digest s.identity
  let requestId := requestIdOf key
  match db.requests.entries.find? fun e => decide (e.2.submissionKey = key) with
  | some e => do
      refuse ((e.2.team, e.2.subject, e.2.origin, e.2.rerunOf)
          ≠ (s.team, s.subject, s.origin, s.rerunOf))
        (valueError "submission identity was already used for different Request inputs")
      let row ← getRequest requestId db
      pure (row, db)
  | none => do
      let row := newRequest key s requested accepted now
      refuse (db.requests.contains requestId = true)
        (integrityError "UNIQUE constraint failed: research_requests.request_id")
      refuse (db.queue.contains requestId = true)
        (integrityError "UNIQUE constraint failed: research_work_queue.work_id")
      pure (row, { db with
        requests := db.requests.set requestId row
        queue := db.queue.set requestId (newWork row) })

/-! ## Claiming -/

def claimedRequest (owner : String) (now : Stamp) (row : RequestRow) : RequestRow :=
  { row with
    status := .running
    phase := .preflight
    claimedBy := some owner
    claimedAt := some now
    lastUpdatedAt := now }

/-- `claim_next_request(owner_id, claimed_at=…)` -/
def claimNextRequest (owner : String) (now : Stamp) (db : Db) :
    Attempt (Option String × Db) := do
  refuse (strip owner = "" ∨ 160 < owner.length) (valueError "invalid Research Service owner")
  match nextWork db with
  | none => pure (none, db)
  | some head =>
      if head.2.kind ≠ .request ∨ head.2.state ≠ .queued then pure (none, db)
      else
        match db.updateRequest head.1
            (fun row => decide (row.status = .queued) && !row.cancelRequested)
            (claimedRequest owner now) with
        | none => pure (none, db)
        | some db' => pure (some head.1, db')

/-- `require_request_claim(request_id, claimed_by)` -/
def requireRequestClaim (requestId claimedBy : String) (db : Db) : Attempt RequestRow := do
  refuse (strip claimedBy = "") (valueError "invalid Research Request claim owner")
  let current ← getRequest requestId db
  refuse (current.status ≠ .running ∨ current.claimedBy ≠ some claimedBy)
    (ownershipLost "Research Request claim ownership changed")
  let work ← need ((db.queue.get? requestId).filter fun w => decide (w.kind = .request))
    (ownershipLost "shared Research queue claim changed")
  refuse (work.state ≠ .running ∨ work.claimedBy ≠ some claimedBy)
    (ownershipLost "shared Research queue claim changed")
  refuse (work.serviceOwnerId.isSome = true ∧
      db.service.map ServiceRow.ownerId ≠ work.serviceOwnerId)
    (ownershipLost "shared Research Service ownership changed")
  pure current

/-- What `expected_claimed_by` asks for, where it is given. -/
def requireExpected (requestId : String) (expected : Option String) (db : Db) : Attempt Unit :=
  match expected with
  | none => pure ()
  | some owner => do
      let _ ← requireRequestClaim requestId owner db
      pure ()

/-- `? IS NULL OR (status = 'running' AND claimed_by = ?)` -/
def RequestRow.heldAs (row : RequestRow) (expected : Option String) : Bool :=
  expected.all fun owner => decide (row.status = .running ∧ row.claimedBy = some owner)

/-! ## Boundary and progress -/

def boundedRequest (boundary now : Stamp) (row : RequestRow) : RequestRow :=
  { row with boundaryAt := some boundary, lastUpdatedAt := now }

def sameBoundary (boundary : Stamp) (current : RequestRow) (db : Db) (at_ : Stamp) :
    Attempt (RequestRow × Db) := do
  refuse (at_.instant ≠ boundary.instant) (valueError "Research Boundary is immutable")
  pure (current, db)

/-- `set_request_boundary(request_id, boundary, expected_claimed_by=…)` -/
def setRequestBoundary (requestId : String) (boundary : Stamp) (expected : Option String)
    (now : Stamp) (seen db : Db) : Attempt (RequestRow × Db) := do
  let current ← getRequest requestId seen
  requireExpected requestId expected seen
  refuse (current.status.terminal = true)
    (valueError "terminal Research Request boundary is immutable")
  refuse (boundary.instant < current.requestedAt.instant)
    (valueError "Research Boundary cannot be earlier than requested time")
  match current.boundaryAt with
  | some at_ => sameBoundary boundary current db at_
  | none =>
      match db.updateRequest requestId
          (fun row => row.boundaryAt.isNone && row.heldAs expected)
          (boundedRequest (inZoneOf current.requestedAt boundary) now) with
      | some db' => do
          let row ← getRequest requestId db'
          pure (row, db')
      | none => do
          requireExpected requestId expected db
          let current ← getRequest requestId db
          match current.boundaryAt with
          | some at_ => sameBoundary boundary current db at_
          | none => .error (valueError "Research Request boundary state changed")

/-- What `update_request_progress` sets. -/
structure Progress where
  phase : Phase
  agentsCompleted : ℤ
  agentsTotal : ℤ
  decisionStage : Option String
  reasonCode : Option Reason
deriving DecidableEq

/-- `_validate_progress(…)` -/
def validateProgress (p : Progress) : Attempt Unit := do
  refuse (p.agentsCompleted < 0 ∨ p.agentsTotal < 0 ∨ p.agentsTotal < p.agentsCompleted)
    (valueError "invalid Research Request Agent progress")
  refuse (∃ stage ∈ p.decisionStage, stage = "" ∨ 80 < stage.length)
    (valueError "invalid Research Request Decision Stage")

def progressedRequest (p : Progress) (now : Stamp) (row : RequestRow) : RequestRow :=
  { row with
    phase := p.phase
    agentsCompleted := p.agentsCompleted
    agentsTotal := p.agentsTotal
    decisionStage := p.decisionStage
    reasonCode := p.reasonCode
    lastUpdatedAt := now }

/-- `update_request_progress(request_id, …, expected_claimed_by=…)` -/
def updateRequestProgress (requestId : String) (p : Progress) (expected : Option String)
    (now : Stamp) (seen db : Db) : Attempt (RequestRow × Db) := do
  let current ← getRequest requestId seen
  requireExpected requestId expected seen
  refuse (current.status.terminal = true)
    (valueError "terminal Research Request progress is immutable")
  validateProgress p
  match db.updateRequest requestId (fun row => row.heldAs expected) (progressedRequest p now) with
  | some db' => do
      let row ← getRequest requestId db'
      pure (row, db')
  | none => do
      requireExpected requestId expected db
      .error (valueError "Research Request progress state changed")

/-! ## Ending -/

/-- `f"record-{request_id.removeprefix('request-')}"` -/
def recordIdOf (requestId : String) : String :=
  "record-" ++ String.ofList (if "request-".toList.isPrefixOf requestId.toList
    then requestId.toList.drop 8 else requestId.toList)

def recordOf (requestId : String) (row : RequestRow) (createdAt : Stamp) : RecordRow where
  recordId := recordIdOf requestId
  team := row.team
  subject := row.subject
  origin := row.origin
  requestedAt := row.requestedAt
  acceptedAt := row.acceptedAt
  boundaryAt := row.boundaryAt
  status := row.status
  phase := row.phase
  reasonCode := row.reasonCode
  cycleId := row.cycleId
  reportJsonHash := row.reportJsonHash
  reportMarkdownHash := row.reportMarkdownHash
  publishedAt := row.publishedAt
  rerunOf := row.rerunOf
  createdAt := createdAt

/-- `_materialize_record(request_id, created_at)` -/
def materializeRecord (requestId : String) (createdAt : Stamp) (db : Db) : Attempt Db := do
  let row ← need (db.requests.get? requestId)
    (valueError "only terminal Research Request can become a Record")
  refuse (row.status.terminal = false)
    (valueError "only terminal Research Request can become a Record")
  if db.records.contains requestId then pure db
  else do
    refuse (∃ r ∈ db.records.values, r.recordId = recordIdOf requestId)
      (integrityError "UNIQUE constraint failed: research_records.record_id")
    pure { db with records := db.records.set requestId (recordOf requestId row createdAt) }

def withRecord (requestId : String) (now : Stamp) (db : Db) : Attempt (RequestRow × Db) := do
  let row ← getRequest requestId db
  let db ← materializeRecord requestId now db
  pure (row, db)

def cancelledQueued (now : Stamp) (row : RequestRow) : RequestRow :=
  { row with
    status := .cancelled
    phase := .cancelled
    reasonCode := some .cancelled
    cancelRequested := true
    lastUpdatedAt := now
    finishedAt := some now }

def flaggedRequest (now : Stamp) (row : RequestRow) : RequestRow :=
  { row with cancelRequested := true, lastUpdatedAt := now }

/-- One round of the loop of `request_cancel`, which may come to nothing. -/
def cancelRound (requestId : String) (now : Stamp) (db : Db) :
    Attempt (Option (RequestRow × Db)) :=
  match db.updateRequest requestId (fun row => decide (row.status = .queued))
      (cancelledQueued now) with
  | some db' => do
      let r ← withRecord requestId now db'
      pure (some r)
  | none =>
      match db.updateRequest requestId (fun row => decide (row.status = .running))
          (flaggedRequest now) with
      | some db' => do
          let row ← getRequest requestId db'
          pure (some (row, db'))
      | none => do
          let current ← getRequest requestId db
          refuse (current.status.terminal = true)
            (valueError "terminal Research Request cannot be cancelled")
          pure none

/-- The rounds of `request_cancel` that are left. -/
def cancelRounds (requestId : String) (now : Stamp) (db : Db) : ℕ → Attempt (RequestRow × Db)
  | 0 => .error (valueError "Research Request cancellation state changed")
  | n + 1 => do
      match ← cancelRound requestId now db with
      | some r => pure r
      | none => cancelRounds requestId now db n

/-- `request_cancel(request_id)` -/
def requestCancel (requestId : String) (now : Stamp) (db : Db) : Attempt (RequestRow × Db) :=
  cancelRounds requestId now db 2

/-- How `complete_request` ends a request. -/
structure Completion where
  status : RequestStatus
  phase : Phase
  reasonCode : Option Reason
  cycleId : Option String
  reportJsonHash : Option String
  reportMarkdownHash : Option String
  publishedAt : Option Stamp
deriving DecidableEq

/-- `_valid_hash(value)` -/
def validHash (value : Option String) : Bool := value.any isHash

def completedRequest (c : Completion) (now : Stamp) (row : RequestRow) : RequestRow :=
  { row with
    status := c.status
    phase := c.phase
    reasonCode := c.reasonCode
    cycleId := c.cycleId
    reportJsonHash := c.reportJsonHash
    reportMarkdownHash := c.reportMarkdownHash
    publishedAt := c.publishedAt <|> (if c.status.published then some now else none)
    lastUpdatedAt := now
    finishedAt := some now }

def cancelledRunning (c : Completion) (now : Stamp) (row : RequestRow) : RequestRow :=
  { row with
    status := .cancelled
    phase := .cancelled
    reasonCode := some .cancelled
    cycleId := row.cycleId <|> c.cycleId
    reportJsonHash := none
    reportMarkdownHash := none
    publishedAt := none
    lastUpdatedAt := now
    finishedAt := some now }

/-- `? IS NULL OR claimed_by = ?` -/
def RequestRow.claimedAs (row : RequestRow) (expected : Option String) : Bool :=
  expected.all fun owner => decide (row.claimedBy = some owner)

/-- What `complete_request` checks of what it is given. -/
def checkCompletion (c : Completion) (current : RequestRow) : Attempt Unit := do
  refuse (c.status.published = true ∧
      (validHash c.reportJsonHash = false ∨ validHash c.reportMarkdownHash = false))
    (valueError "published Research Request requires verified report hashes")
  refuse (c.status.published = false ∧
      (c.reportJsonHash.isSome = true ∨ c.reportMarkdownHash.isSome = true))
    (valueError "non-published Research Request cannot carry report hashes")
  validateProgress ⟨c.phase, current.agentsCompleted, current.agentsTotal,
    current.decisionStage, c.reasonCode⟩

def completeTerminal (c : Completion) (expected : Option String) (current : RequestRow)
    (db : Db) : Attempt (RequestRow × Db) := do
  refuse (expected.isNone = true ∧ current.status ≠ c.status)
    (valueError "terminal Research Request is immutable")
  pure (current, db)

/-- What `complete_request` does when neither of its updates changed a row. -/
def completeMissed (requestId : String) (c : Completion) (expected : Option String) (db : Db) :
    Attempt (RequestRow × Db) := do
  let current ← getRequest requestId db
  if expected.isSome ∧ current.status.terminal then pure (current, db)
  else do
    requireExpected requestId expected db
    refuse (¬ (current.status = .cancelled ∨
        (current.status.terminal = true ∧ current.status = c.status)))
      (valueError "Research Request completion state changed")
    pure (current, db)

/-- The updates of `complete_request`: a cancellation wins. -/
def completeRunning (requestId : String) (c : Completion) (expected : Option String)
    (now : Stamp) (db : Db) : Attempt (RequestRow × Db) :=
  match db.updateRequest requestId
      (fun row => decide (row.status = .running) &&
        (decide (c.status = .cancelled) || !row.cancelRequested) && row.claimedAs expected)
      (completedRequest c now) with
  | some db' => withRecord requestId now db'
  | none =>
      match db.updateRequest requestId
          (fun row => decide (row.status = .running) && row.cancelRequested &&
            row.claimedAs expected)
          (cancelledRunning c now) with
      | some db' => withRecord requestId now db'
      | none => completeMissed requestId c expected db

/-- `complete_request(request_id, status=…, …, expected_claimed_by=…)` -/
def completeRequest (requestId : String) (c : Completion) (expected : Option String)
    (now : Stamp) (seen db : Db) : Attempt (RequestRow × Db) := do
  refuse (c.status.terminal = false) (valueError "Research Request completion must be terminal")
  let current ← getRequest requestId seen
  if current.status.terminal then completeTerminal c expected current db
  else do
    requireExpected requestId expected seen
    refuse (current.status ≠ .running) (valueError "only running Research Request may complete")
    checkCompletion c current
    completeRunning requestId c expected now db

/-! ## Recovering -/

def recoveredRequest (now : Stamp) (row : RequestRow) : RequestRow :=
  { row with
    status := .queued
    claimedBy := none
    claimedAt := none
    reasonCode := some .serviceRecovery
    lastUpdatedAt := now }

/-- `status = 'running' AND (claimed_by IS NULL OR claimed_by <> ?)` -/
def RequestRow.abandoned (row : RequestRow) (owner : String) : Bool :=
  decide (row.status = .running ∧ row.claimedBy ≠ some owner)

/-- `recover_interrupted_requests(owner_id)` -/
def recoverInterruptedRequests (owner : String) (now : Stamp) (db : Db) : Attempt (Unit × Db) := do
  refuse (strip owner = "") (valueError "invalid Research Service owner")
  let abandoned := db.requests.entries.filter fun e => e.2.abandoned owner
  pure ((), abandoned.foldl (fun db e => db.setRequest e.1 (recoveredRequest now e.2)) db)

/-! ## Calls -/

inductive RequestCall
  | submit (s : Submission)
  | claimNext (owner : String)
  | cancel (requestId : String)
  | setBoundary (requestId : String) (boundary : Stamp) (expected : Option String)
  | updateProgress (requestId : String) (p : Progress) (expected : Option String)
  | complete (requestId : String) (c : Completion) (expected : Option String)
  | recover (owner : String)

/-- The tables an operation leaves when it returns. -/
def left {α : Type} (x : Attempt (α × Db)) : Attempt Db :=
  x >>= fun r => pure r.2

def RequestCall.returns (digest : String → String) (now : Stamp) (db : Db) :
    RequestCall → Attempt Db
  | .submit s => left (submitRequest digest s now db)
  | .claimNext owner => left (claimNextRequest owner now db)
  | .cancel requestId => left (requestCancel requestId now db)
  | .setBoundary requestId boundary expected =>
      left (setRequestBoundary requestId boundary expected now db db)
  | .updateProgress requestId p expected =>
      left (updateRequestProgress requestId p expected now db db)
  | .complete requestId c expected => left (completeRequest requestId c expected now db db)
  | .recover owner => left (recoverInterruptedRequests owner now db)

def RequestCall.after (digest : String → String) (call : RequestCall) (now : Stamp) (db : Db) :
    Db :=
  match call.returns digest now db with
  | .ok db' => db'
  | .error _ => db

end Ahunter.Research
