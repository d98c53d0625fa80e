import Ahunter.Records.Store

/-!
# Writing to the record store

Every write happens inside one transaction, on a copy of the database that
becomes the database when the transaction commits. A call's result is
therefore a pair: what it returns or raises, and the database it leaves. The
two are not the same thing: a failure after the commit point raises and
still leaves the write behind.
-/

namespace Ahunter.Records

open Ahunter.Lib
open Ahunter.Sim (Instant)

variable {R P V A α : Type}

abbrev Call (R P V α : Type) := Db R P V → Attempt α × Db R P V

abbrev Body.Run (R P V α : Type) := Db R P V → Attempt (α × Db R P V)

/-- `with self._transaction():` -/
def transaction (host : Host A) (body : Body.Run R P V α) : Call R P V α :=
  fun db =>
    match body db with
    | .error e => (.error e, db)
    | .ok (a, db') =>
        match host.fault .beforeCommit with
        | .error e => (.error e, db)
        | .ok () =>
            match host.fault .afterCommit with
            | .error e => (.error e, db')
            | .ok () => (.ok a, db')

/-! ## Records -/

def sortedSet (l : List String) : List String := l.dedup.insertionSort (· ≤ ·)

def Link.key (l : Link) : String ×ₗ String := toLex (l.relation, l.targetId)

def sortedLinks (l : List Link) : List Link :=
  l.dedup.insertionSort fun a b => a.key ≤ b.key

/-- `records.prepare(…)` -/
def prepare (host : Host A) (request : Prepared R) : Attempt (Prepared R) := do
  refuse (request.recordId = "" ∨ request.submissionIdentity = "")
    (invalidValue "record kind and identities are required")
  let artifactHashes := sortedSet request.artifactHashes
  let sourcePolicyHashes := sortedSet request.sourcePolicyHashes
  refuse (∃ h ∈ artifactHashes, h ∈ sourcePolicyHashes)
    (invalidValue "artifact cannot have two retention policies in one record")
  walk (fun _ h => host.readJson h >>= fun _ => pure ()) ()
    (artifactHashes ++ sourcePolicyHashes)
  pure { request with
    links := sortedLinks request.links
    artifactHashes := artifactHashes
    sourcePolicyHashes := sourcePolicyHashes }

def nextSequence (sequences : List ℕ) : ℕ := sequences.foldr max 0 + 1

namespace Db

def submitted (db : Db R P V) (p : Prepared R) : Option (Record R) :=
  db.records.find? fun r => r.experimentId = p.experimentId ∧ r.kind = p.kind
    ∧ r.submissionIdentity = p.submissionIdentity

def linkable (db : Db R P V) (experimentId : String) (link : Link) :
    Attempt Unit := do
  refuse (link.relation = "") (invalidValue "record relation is required")
  let target ← db.read link.targetId
  refuse (target.experimentId ≠ experimentId)
    (conflict "record link crosses experiment boundary")

/-- `records._insert(prepared)` -/
def insert [DecidableEq R] (host : Host A) (p : Prepared R) :
    Body.Run R P V (Record R) := fun db =>
  match db.submitted p with
  | some previous => do
      refuse (previous.toPrepared ≠ p)
        (conflict "record submission identity has different content")
      pure (previous, db)
  | none => do
      refuse (∃ r ∈ db.records, r.recordId = p.recordId)
        (conflict "record identity is already registered under another submission")
      walk (fun _ link => db.linkable p.experimentId link) () p.links
      refuse (p.experimentId ∉ db.experiments)
        ⟨.integrityError, "FOREIGN KEY constraint failed"⟩
      let record : Record R := { p with
        sequence := nextSequence (db.records.map Record.sequence)
        createdAt := host.now }
      host.fault .afterRecord
      walk (fun _ h => host.readJson h >>= fun _ => pure ()) ()
        (p.artifactHashes ++ p.sourcePolicyHashes)
      host.fault .afterArtifactReferences
      pure (record, { db with records := db.records ++ [record] })

/-- `records.put(…)` -/
def put [DecidableEq R] (host : Host A) (request : Prepared R) :
    Call R P V (Record R) := fun db =>
  match prepare host request with
  | .error e => (.error e, db)
  | .ok p => transaction host (insert host p) db

/-! ## Leases -/

/-- `now + timedelta(seconds=lease_seconds)` -/
def leaseEnd (now : Instant) (seconds : ℕ) : Instant := now + 1000000 * seconds

variable [DecidableEq V]

def supersedable (db : Db R P V) (now : Instant) (testId workerId : String) :
    Attempt Unit := do
  let e := fenced "lease supersession lacks shared service ownership"
  let work ← need (db.work.get? testId) e
  let service ← need db.service e
  refuse (work.state ≠ .running ∨ work.claimedBy ≠ some workerId
    ∨ some service.ownerId ≠ work.serviceOwnerId ∨ service.expiresAt ≤ now) e

def superseding (db : Db R P V) (now : Instant) (testId workerId : String) :
    Bool → Attempt Unit
  | true => db.supersedable now testId workerId
  | false => .ok ()

def guarded (guard : Option (Db R P V → Attempt (Db R P V))) (db : Db R P V) :
    Attempt (Db R P V) :=
  match guard with
  | none => .ok db
  | some guard => guard db

/-- The transaction of `records.claim(…)`. -/
def claimBody (host : Host A) (testId workerId : String) (seconds : ℕ)
    (guard : Option (Db R P V → Attempt (Db R P V))) (supersede : Bool) :
    Body.Run R P V Lease := fun db => do
  refuse (supersede = true ∧ guard.isNone = true)
    (invalidValue "superseding a lease requires a shared service ownership guard")
  let db ← guarded guard db
  db.superseding host.now testId workerId supersede
  let status ← db.status testId
  refuse (status ∉ [.queued, .running, .evaluating])
    (fenced "only queued or active tests can be claimed")
  let row := db.leases.get? testId
  refuse (∃ r ∈ row, host.now < r.expiresAt ∧ supersede = false)
    (fenced "test already has a live worker lease")
  let generation := (row.map LeaseRow.generation).getD 0 + 1
  let attemptId := testId ++ ":worker-attempt:" ++ toString generation
  let test ← db.test testId
  let lease : Lease := ⟨testId, workerId, generation⟩
  refuse (∃ r ∈ db.records, r.recordId = attemptId
      ∨ (r.experimentId = test.experimentId ∧ r.kind = .attempt
        ∧ r.submissionIdentity = attemptId))
    ⟨.integrityError, "UNIQUE constraint failed"⟩
  let record : Record R := {
    experimentId := test.experimentId
    kind := .attempt
    recordId := attemptId
    submissionIdentity := attemptId
    value := .attempt lease
    links := [⟨"test", testId⟩]
    artifactHashes := []
    sourcePolicyHashes := []
    sequence := nextSequence (db.records.map Record.sequence)
    createdAt := host.now }
  pure (lease, { db with
    leases := db.leases.set testId
      ⟨workerId, generation, leaseEnd host.now seconds⟩
    records := db.records ++ [record] })

/-- `records.claim(test_id, worker_id=…, lease_seconds=…, …)` -/
def claim (host : Host A) (testId workerId : String) (seconds : ℕ)
    (guard : Option (Db R P V → Attempt (Db R P V))) (supersede : Bool) :
    Call R P V Lease := fun db =>
  if workerId = "" ∨ seconds = 0 then
    (.error (invalidValue "positive lease duration and worker identity required"), db)
  else transaction host (claimBody host testId workerId seconds guard supersede) db

/-- The transaction of `records.renew(…)`. -/
def renewBody (host : Host A) (lease : Lease) (seconds : ℕ) : Body.Run R P V Unit :=
  fun db => do
    db.assertLease host.now lease
    let row ← need (db.leases.get? lease.testId) expired
    let renewed : LeaseRow := { row with expiresAt := leaseEnd host.now seconds }
    pure ((), { db with leases := db.leases.set lease.testId renewed })

/-- `records.renew(lease, lease_seconds=…)` -/
def renew (host : Host A) (lease : Lease) (seconds : ℕ) : Call R P V Unit :=
  fun db =>
    if seconds = 0 then
      (.error (invalidValue "positive lease duration required"), db)
    else transaction host (renewBody host lease seconds) db

end Db

/-! ## Events -/

structure Commit (P V : Type) where
  testId : String
  lease : Option Lease
  phaseId : String
  actionId : String
  attempt : ℕ
  content : Content P V
deriving DecidableEq

/-- What `_commit` checks before it opens its transaction. -/
def Commit.check (c : Commit P V) : Attempt Unit := do
  refuse (c.actionId = "" ∨ c.content.kind = "")
    (invalidValue "event identity, kind and nonnegative attempt required")
  refuse (¬ (c.content.updates.map ProjectionUpdate.name).Nodup
      ∨ "" ∈ c.content.updates.map ProjectionUpdate.name)
    (invalidValue "projection names must be nonempty and unique")

namespace Db

def prior (db : Db R P V) (testId phaseId actionId : String) (attempt : ℕ) :
    Option (Event P V) :=
  db.events.find? fun e => e.testId = testId ∧ e.phaseId = phaseId
    ∧ e.actionId = actionId ∧ e.attempt = attempt

def requeue (testId : String) (work : Dict String WorkRow)
    (u : ProjectionUpdate V) : Dict String WorkRow :=
  match u.name, u.value, work.get? testId with
  | "status", .status s _, some row =>
      let state := if s.terminal then .finished else row.state
      work.set testId ⟨state, row.claimedBy, row.serviceOwnerId⟩
  | _, _, _ => work

def project (sequence : ℕ) (testId : String) (db : Db R P V)
    (u : ProjectionUpdate V) : Db R P V :=
  { db with
    projections := db.projections.set (projectionKey testId u.name) ⟨sequence, u.value⟩
    work := requeue testId db.work u }

def enqueue (sequence : ℕ) (db : Db R P V) (m : OutboxMessage) :
    Attempt (Db R P V) := do
  refuse (m.outboxId = "" ∨ m.destination = "")
    (invalidValue "outbox identity and destination required")
  refuse (∃ r ∈ db.outbox, r.message.outboxId = m.outboxId)
    ⟨.integrityError, "UNIQUE constraint failed: lagent_outbox.outbox_id"⟩
  pure { db with outbox := db.outbox ++ [⟨sequence, m⟩] }

variable [DecidableEq V]

def writable (db : Db R P V) (now : Instant) (c : Commit P V) :
    Attempt Unit :=
  match c.lease with
  | some lease => do
      refuse (lease.testId ≠ c.testId) (fenced "lease belongs to another test")
      db.assertLease now lease
  | none => do
      let status ← db.status c.testId
      refuse (status ∉ [.created, .preflight, .queued])
        (fenced "active test writes require its worker lease")

def updatesOf (db : Db R P V) (c : Commit P V) :
    Attempt (List (ProjectionUpdate V)) :=
  match c.content.transitionTo with
  | none => pure c.content.updates
  | some target => do
      let current ← db.status c.testId
      refuse (target ∉ current.next)
        (conflict "invalid or terminal test status transition")
      refuse (target = .running ∧ c.lease = none)
        (fenced "starting a test requires worker ownership")
      let projection ← db.projection c.testId "status"
      let reason := match c.content.payload with
        | .reason r => r
        | .data _ => none
      pure [⟨"status", projection.map Revision.sequence, .status target reason⟩]

def revisionsCurrent (db : Db R P V) (testId : String)
    (updates : List (ProjectionUpdate V)) : Attempt Unit :=
  walk (fun _ u => do
    let current ← db.projection testId u.name
    refuse (current.map Revision.sequence ≠ u.expectedSequence)
      (conflict "projection revision changed")) () updates

/-- The transaction of `records._commit(…)`. -/
def commitBody [DecidableEq P] (host : Host A) (c : Commit P V)
    (guard : Db R P V → Attempt (Db R P V)) : Body.Run R P V (Event P V) :=
  fun db => do
    let record ← db.test c.testId
    match db.prior c.testId c.phaseId c.actionId c.attempt with
    | some event => do
        refuse (event.content ≠ c.content)
          (conflict "event identity has different content")
        pure (event, db)
    | none => do
        db.writable host.now c
        let updates ← db.updatesOf c
        db.revisionsCurrent c.testId updates
        host.fault .beforeEvent
        let db ← guard db
        let event : Event P V := {
          sequence := nextSequence (db.events.map Event.sequence)
          experimentId := record.experimentId
          testId := c.testId
          phaseId := c.phaseId
          actionId := c.actionId
          attempt := c.attempt
          generation := (c.lease.map Lease.generation).getD 0
          content := c.content
          updates := updates
          actualAt := host.now }
        host.fault .afterEvent
        let db := updates.foldl (project event.sequence c.testId)
          { db with events := db.events ++ [event] }
        host.fault .afterProjection
        let db ← walk (enqueue event.sequence) db c.content.outbox
        host.fault .afterOutbox
        pure (event, db)

/-- `records._commit(…)` -/
def commitWith [DecidableEq P] (host : Host A) (c : Commit P V)
    (guard : Db R P V → Attempt (Db R P V)) : Call R P V (Event P V) := fun db =>
  match c.check with
  | .error e => (.error e, db)
  | .ok () => transaction host (commitBody host c guard) db

/-- `records.commit(…)` -/
def commit [DecidableEq P] (host : Host A) (c : Commit P V)
    (guard : Db R P V → Attempt (Db R P V)) : Call R P V (Event P V) := fun db =>
  if "status" ∈ c.content.updates.map ProjectionUpdate.name
      ∨ c.content.transitionTo.isSome = true then
    (.error (invalidValue "lifecycle status changes must use transition"), db)
  else db.commitWith host c guard

/-- `records.transition(test_id, target, action_id=…, lease=…, reason=…)` -/
def transition [DecidableEq P] (host : Host A) (testId : String)
    (target : Status) (actionId : String) (lease : Option Lease)
    (reason : Option String) : Call R P V (Event P V) := fun db =>
  db.commitWith host {
    testId := testId
    lease := lease
    phaseId := ""
    actionId := actionId
    attempt := 0
    content := {
      kind := "status_transition"
      payload := .reason reason
      updates := []
      outbox := []
      simulatedAt := none
      transitionTo := some target } } pure

end Db

/-! ## Pages of records

A listing of an experiment's records is read in pages. The first page fixes
how far the listing goes, the largest sequence of any record there is, and
every page hands on a cursor with that ceiling and the sequence it got to.

A cursor is what its text decodes to. A text that does not decode to the four
fields is refused like a cursor of another listing. -/

structure PageCursor where
  experimentId : String
  kind : Option RecordKind
  after : ℤ
  ceiling : ℤ
deriving DecidableEq, Repr

structure RecordPage (R : Type) where
  items : List (Record R)
  nextCursor : Option PageCursor
deriving DecidableEq

def invalidCursor : Failure := invalidValue "invalid or mismatched record cursor"

namespace Db

variable (db : Db R P V) (experimentId : String) (kind : Option RecordKind)

/-- `SELECT COALESCE(MAX(record_sequence), 0) FROM lagent_records` -/
def ceiling : ℕ := (db.records.map Record.sequence).foldr max 0

def pageFrom : Option PageCursor → Attempt PageCursor
  | none => pure ⟨experimentId, kind, 0, db.ceiling⟩
  | some cursor => do
      refuse (cursor.experimentId ≠ experimentId ∨ cursor.kind ≠ kind) invalidCursor
      refuse (¬ (0 ≤ cursor.after ∧ cursor.after ≤ cursor.ceiling)) invalidCursor
      pure cursor

/-- `experiment_id=? AND (? IS NULL OR kind=?)` -/
def listed (r : Record R) : Bool := r.experimentId = experimentId && kind.all (· = r.kind)

def rowsAfter (cursor : PageCursor) : List (Record R) :=
  (db.records.filter fun r => listed experimentId kind r && decide (cursor.after < r.sequence)
    && decide (r.sequence ≤ cursor.ceiling)).insertionSort fun a b => a.sequence ≤ b.sequence

/-- `records.page(experiment_id=…, kind=…, limit=…, cursor=…)` -/
def page (limit : ℕ) (cursor : Option PageCursor) : Attempt (RecordPage R) := do
  refuse (limit = 0) (invalidValue "invalid page limit or record kind")
  let start ← db.pageFrom experimentId kind cursor
  let rows := (db.rowsAfter experimentId kind start).take (limit + 1)
  let next := if limit < rows.length then
      (rows[limit - 1]?).map fun r => { start with after := r.sequence }
    else none
  let items ← gather (fun r => db.read r.recordId) (rows.take limit)
  pure { items := items, nextCursor := next }

end Db

end Ahunter.Records
