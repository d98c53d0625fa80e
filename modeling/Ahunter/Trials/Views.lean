import Ahunter.Trials.Queries

/-!
# The views of owners and optimizers

Everything a viewer is given comes out of one of these calls. A call that
gives an owner hidden detail commits an exposure record before it reads what
it gives; for an optimizer the same call fails.
-/

namespace Ahunter.Trials

open Ahunter.Lib Ahunter.Records
open Ahunter.Sim (Date Instant)

variable {X P V : Type}

/-! ## Release -/

def exposureRequest (g : Hashes X) (target : TrialRecord X) (auditIdentity : String)
    (action : Action) (scopes : List Scope) : Prepared (Entry X) where
  experimentId := target.experimentId
  kind := .exposure
  recordId := g.identity target.experimentId "exposure" auditIdentity
  submissionIdentity := auditIdentity
  value := .data (.exposure (.released ⟨action, target.recordId, g.content target.value, scopes⟩))
  links := [⟨"target", target.recordId⟩]
  artifactHashes := []
  sourcePolicyHashes := []

section Release

variable [DecidableEq X]

/-- `queries._authorize(record_id, audit_identity=…, action=…)` -/
def authorize (g : Hashes X) (host : TrialHost X) (viewer : Viewer) (recordId : String)
    (auditIdentity : Option String) (action : Action) : Call (Entry X) P V Unit := fun db =>
  match scopes g db recordId with
  | .error e => (.error e, db)
  | .ok scopes =>
      if hidden scopes = false then (.ok (), db)
      else if viewer ≠ .owner then
        (.error (denied "hidden experiment detail is unavailable in optimizer views"), db)
      else
        match auditIdentity with
        | none | some "" =>
            (.error (denied "owner hidden-detail reads require an explicit audit identity"), db)
        | some audit =>
            match db.read recordId with
            | .error e => (.error e, db)
            | .ok target =>
                match Db.put host (exposureRequest g target audit action scopes) db with
                | (.error e, db) => (.error e, db)
                | (.ok _, db) => (.ok (), db)

def released {α : Type} (release : Call (Entry X) P V Unit)
    (read : TrialDb X P V → Attempt α) : Call (Entry X) P V α := fun db =>
  match release db with
  | (.error e, db) => (.error e, db)
  | (.ok (), db) => (read db, db)

end Release

/-! ## Sources -/

/-- What `sources.describe` says of a document. -/
structure SourceView where
  document : SourceDocument
  available : Bool
  reason : Option String
deriving DecidableEq

/-- `sources.describe(record_id)` -/
def describeSource (host : TrialHost X) (db : TrialDb X P V) (recordId : String) :
    Attempt SourceView := do
  let record ← db.read recordId
  refuse (record.kind ≠ .sourceDocument) (conflict "expected source document")
  match record.value with
  | .data (.sourceDocument document) =>
      let gone := (db.records.any fun r =>
          r.kind == .sourceExpiration && r.links.contains ⟨"source", recordId⟩)
        || decide (document.expiresAt ≤ host.now)
      let available := !gone && (host.artifacts document.contentHash).isSome
      pure ⟨document, available,
        if available then none
        else if gone then some "source_policy_expired" else some "artifact_missing_or_corrupt"⟩
  | _ => .error (invalidValue "SourceDocument")

/-- `sources.read_bytes(record_id)` -/
def readSource (host : TrialHost X) (db : TrialDb X P V) (recordId : String) :
    Attempt (Artifact X) := do
  let view ← describeSource host db recordId
  refuse (view.available = false)
    ⟨.missing, "source original is unavailable; metadata and hash remain"⟩
  host.readJson view.document.contentHash

/-! ## Detail -/

section Views

variable [DecidableEq X]

/-- `queries.detail(record_id, audit_identity=…)` -/
def detail (g : Hashes X) (host : TrialHost X) (viewer : Viewer) (recordId : String)
    (auditIdentity : Option String) :
    Call (Entry X) P V (TrialRecord X × Option SourceView) :=
  released (authorize g host viewer recordId auditIdentity .recordDetail) fun db => do
    let record ← db.read recordId
    if record.kind = .sourceDocument then do
      let view ← describeSource host db recordId
      pure (record, some view)
    else pure (record, none)

structure EventPage (P V : Type) where
  items : List (Event P V)
  nextAfter : Option ℕ
deriving DecidableEq

/-- `records.events(test_id, after=…, limit=…)` -/
def eventPage (db : TrialDb X P V) (testId : String) (after limit : ℕ) :
    Attempt (EventPage P V) := do
  refuse (limit = 0) (invalidValue "invalid event pagination")
  let _ ← db.test testId
  let rows := (db.events.filter fun e => e.testId = testId ∧ after < e.sequence).take (limit + 1)
  pure ⟨rows.take limit,
    if rows.length > limit then (rows[limit - 1]?).map Event.sequence else none⟩

/-- `queries.events(test_id, after=…, limit=…, audit_identity=…)` -/
def events (g : Hashes X) (host : TrialHost X) (viewer : Viewer) (testId : String)
    (after limit : ℕ) (auditIdentity : Option String) : Call (Entry X) P V (EventPage P V) :=
  released (authorize g host viewer testId auditIdentity (.events after limit)) fun db =>
    eventPage db testId after limit

def retention? (record : TrialRecord X) (contentHash : String) : Option String :=
  if contentHash ∈ record.artifactHashes then some "permanent"
  else if contentHash ∈ record.sourcePolicyHashes then some "source_policy"
  else none

/-- `queries.artifact(record_id, content_hash, audit_identity=…)` -/
def artifact (g : Hashes X) (host : TrialHost X) (viewer : Viewer)
    (recordId contentHash : String) (auditIdentity : Option String) :
    Call (Entry X) P V (Artifact X) := fun db =>
  let e : Failure := ⟨.missing, "artifact is not linked to this record"⟩
  match (db.records.find? fun r => r.recordId = recordId).bind (retention? · contentHash) with
  | none => (.error e, db)
  | some retention =>
      released (authorize g host viewer recordId auditIdentity (.artifact contentHash))
        (fun db => if retention = "source_policy" then readSource host db recordId
          else host.readJson contentHash) db

inductive Availability
  | available
  | unavailable
  | integrityFailure
deriving DecidableEq, Repr

structure Export (X : Type) where
  record : TrialRecord X
  artifacts : List (String × String × Availability)
  recordReplay : String
deriving DecidableEq

def availability (host : TrialHost X) (db : TrialDb X P V) (recordId : String)
    (entry : String × String) : Attempt (String × String × Availability) :=
  if entry.2 = "source_policy" then do
    let view ← describeSource host db recordId
    pure (entry.1, entry.2, if view.available then .available else .unavailable)
  else
    pure (entry.1, entry.2,
      if (host.artifacts entry.1).isSome then .available else .integrityFailure)

def replayState (states : List Availability) : String :=
  if states.contains .integrityFailure then "integrity_failure"
  else if states.any (· != .available) then "metadata_and_hash_only"
  else "exact_bytes"

/-- What `queries.export` returns once it may. -/
def exportRecord (host : TrialHost X) (db : TrialDb X P V) (recordId : String) :
    Attempt (Export X) := do
  let record ← db.read recordId
  let entries := (record.artifactHashes.map fun h => (h, "permanent"))
    ++ record.sourcePolicyHashes.map fun h => (h, "source_policy")
  let manifest ← gather (availability host db recordId)
    (entries.insertionSort fun a b => a.1 ≤ b.1)
  pure ⟨record, manifest, replayState (manifest.map fun m => m.2.2)⟩

/-- `queries.export(record_id, audit_identity=…)` -/
def exportView (g : Hashes X) (host : TrialHost X) (viewer : Viewer) (recordId : String)
    (auditIdentity : Option String) : Call (Entry X) P V (Export X) :=
  released (authorize g host viewer recordId auditIdentity .recordExport) fun db =>
    exportRecord host db recordId

/-- `queries.declare_exposure(experiment_id, …)` -/
def declareExposure (g : Hashes X) (host : TrialHost X) (viewer : Viewer)
    (experimentId submissionIdentity : String) (periods : List (Date × Date)) (note : String) :
    Call (Entry X) P V (TrialRecord X) := fun db =>
  if viewer ≠ .owner then
    (.error (denied "only the owner can declare external exposure"), db)
  else if periods = [] ∨ strip note = "" then
    (.error (invalidValue "exposure requires date periods and an explanatory note"), db)
  else if ∃ p ∈ periods, p.2 < p.1 then (.error (invalidValue "invalid exposure period"), db)
  else
    Db.put host {
      experimentId := experimentId
      kind := .exposure
      recordId := g.identity experimentId "exposure" submissionIdentity
      submissionIdentity := submissionIdentity
      value := .data (.exposure (.declared periods note))
      links := []
      artifactHashes := []
      sourcePolicyHashes := [] } db

end Views

/-! ## Listings -/

/-- The position of a listing: `records.page` encodes and checks it. -/
structure Cursor where
  experimentId : String
  kind : Option RecordKind
  after : ℕ
  ceiling : ℕ
deriving DecidableEq, Repr

def listingStart (db : TrialDb X P V) (experimentId : String) (kind : Option RecordKind) :
    Option Cursor → Attempt Cursor
  | none => pure ⟨experimentId, kind, 0, (db.records.map Record.sequence).foldr max 0⟩
  | some c => do
      refuse (c.experimentId ≠ experimentId ∨ c.kind ≠ kind ∨ c.ceiling < c.after)
        (invalidValue "invalid or mismatched record cursor")
      pure c

structure RecordPage (α : Type) where
  items : List α
  nextCursor : Option Cursor
deriving DecidableEq

/-- `records.page(experiment_id=…, kind=…, limit=…, cursor=…)` -/
def recordPage (db : TrialDb X P V) (experimentId : String) (kind : Option RecordKind)
    (limit : ℕ) (cursor : Option Cursor) : Attempt (RecordPage (TrialRecord X)) := do
  refuse (limit = 0) (invalidValue "invalid page limit or record kind")
  let start ← listingStart db experimentId kind cursor
  let rows := (db.records.filter fun r => r.experimentId = experimentId
    ∧ (∀ k ∈ kind, r.kind = k) ∧ start.after < r.sequence ∧ r.sequence ≤ start.ceiling).take
      (limit + 1)
  pure ⟨rows.take limit,
    if rows.length > limit then
      (rows[limit - 1]?).map fun r => { start with after := r.sequence }
    else none⟩

structure Overview where
  recordId : String
  sequence : ℕ
  kind : RecordKind
  createdAt : Instant
  roles : List (Option Role)
  detailHidden : Bool
  status : Option Status
deriving DecidableEq, Repr

def scopeRoles (scopes : List Scope) : List (Option Role) :=
  [some .finalHoldout, some .selectionValidation, some .tuning, none].filter
    fun role => scopes.any fun s => s.role == role

variable [DecidableEq V]

def overview (g : Hashes X) (db : TrialDb X P V) (record : TrialRecord X) : Attempt Overview := do
  let scopes ← scopes g db record.recordId
  let status ← if record.kind = .test then some <$> db.status record.recordId else pure none
  pure ⟨record.recordId, record.sequence, record.kind, record.createdAt, scopeRoles scopes,
    hidden scopes, status⟩

/-- `queries.page(experiment_id=…, kind=…, limit=…, cursor=…)` -/
def page (g : Hashes X) (db : TrialDb X P V) (experimentId : String) (kind : RecordKind)
    (limit : ℕ) (cursor : Option Cursor) : Attempt (RecordPage Overview) := do
  let page ← recordPage db experimentId (some kind) limit cursor
  let items ← gather (overview g db) page.items
  pure ⟨items, page.nextCursor⟩

end Ahunter.Trials
