import Ahunter.Records.Commit

/-!
# Source retention

The bytes of an artifact lie in the artifact store under their hash, and two
tables refer to them: the links of records, each permanent or under the policy
of a source, and a row for every artifact with a class. The row is shared with
the research repository, which knows nothing of the links. Once a source has
expired its bytes may be deleted, if nothing else refers to them. The file goes
before the transaction commits, so a crash can leave a row without its bytes.

A digest stands for what it covers, so the size of an artifact needs no column.
Directories and symbolic links, and the syntax of a document's URL, are left out.
-/

namespace Ahunter.Records

open Ahunter.Lib
open Ahunter.Sim (Instant)

/-! ## Documents -/

/-- `SourceDocument` -/
structure SourceDocument where
  sourceId : String
  contentHash : String
  sourceRef : String
  title : String
  url : Option String
  fetchedAt : Instant
  expiresAt : Instant
  retentionPolicyRef : String
  expires : fetchedAt < expiresAt
deriving DecidableEq

/-- What records hold, as far as retention reads it. -/
inductive SourceValue (X : Type)
  | document (document : SourceDocument)
  | expiration (sourceId contentHash : String) (expiresAt : Instant)
  | other (value : X)
deriving DecidableEq

/-- A row of `research_artifacts`. -/
structure ArtifactRow where
  retentionClass : String
  availability : String
deriving DecidableEq, Repr

def sourcePolicy : String := "source_policy"

/-- The record store, the table of artifacts and the files of the artifact store. -/
structure Archive (X P V A : Type) where
  db : Db (SourceValue X) P V
  artifacts : Dict String ArtifactRow
  files : Dict String A
deriving DecidableEq

variable {X P V A : Type} [DecidableEq X]

inductive SweepFault
  | beforeSourceUnlink
  | afterSourceUnlink
  | beforeCommit
  | afterCommit
deriving DecidableEq, Repr

/-- `hash` is the digest of bytes and `identity` is `record_identity`. -/
structure Digest (A : Type) where
  hash : A → String
  identity : String → String → String → String

namespace Archive

/-- `artifacts.read_bytes(content_hash)`, which checks the hash -/
def bytes (g : Digest A) (w : Archive X P V A) (contentHash : String) : Option A :=
  (w.files.get? contentHash).filter fun a => g.hash a == contentHash

/-- What a call meets outside the database. -/
def host (g : Digest A) (now : Instant) (faults : FaultPoint → Bool) (w : Archive X P V A) :
    Host A :=
  ⟨now, w.bytes g, faults⟩

/-! ## References -/

/-- One reference of a new record: `ON CONFLICT(content_hash) DO UPDATE`. -/
def refer (rows : Dict String ArtifactRow) (contentHash retention : String) :
    Dict String ArtifactRow :=
  match rows.get? contentHash with
  | none => rows.set contentHash ⟨retention, "available"⟩
  | some row => rows.set contentHash
      ⟨if retention = "experiment_permanent" then retention else row.retentionClass, "available"⟩

def references {R : Type} (r : Record R) : List (String × String) :=
  r.artifactHashes.map (fun h => (h, "experiment_permanent"))
    ++ r.sourcePolicyHashes.map fun h => (h, sourcePolicy)

/-- `records.put(…)`, with the rows of the artifacts that the new record refers to -/
def put (g : Digest A) (now : Instant) (faults : FaultPoint → Bool)
    (request : Prepared (SourceValue X)) (w : Archive X P V A) :
    Attempt (Record (SourceValue X)) × Archive X P V A :=
  match w.db.put (w.host g now faults) request with
  | (result, db) =>
      (result, { w with
        db := db
        artifacts := ((db.records.drop w.db.records.length).flatMap references).foldl
          (fun rows e => refer rows e.1 e.2) w.artifacts })

/-- `put_bytes(value)` -/
def store (g : Digest A) (a : A) (w : Archive X P V A) : Attempt (Archive X P V A) :=
  match w.files.get? (g.hash a) with
  | none => pure { w with files := w.files.set (g.hash a) a }
  | some b => do
      refuse (g.hash b ≠ g.hash a)
        (invalidValue "artifact path already contains different content")
      pure w

/-- `repository.record_artifact(ref, …, retention_class=…)` -/
def recordArtifact (contentHash retentionClass : String) (w : Archive X P V A) :
    Archive X P V A :=
  { w with artifacts := w.artifacts.set contentHash ⟨retentionClass, "available"⟩ }

/-! ## Sources -/

/-- `SourceDocument.model_validate(record["value"]["document"])` -/
def documentOf (record : Record (SourceValue X)) : Attempt SourceDocument :=
  match record.value with
  | .data (.document document) => pure document
  | _ => .error (invalidValue "SourceDocument")

/-- `_document(record_id)` -/
def document (w : Archive X P V A) (recordId : String) :
    Attempt (Record (SourceValue X) × SourceDocument) := do
  let record ← w.db.read recordId
  refuse (record.kind ≠ .sourceDocument) (conflict "expected source document")
  let document ← documentOf record
  pure (record, document)

/-- Whether an expiration of a source has been committed. -/
def marked (w : Archive X P V A) (recordId : String) : Prop :=
  ∃ r ∈ w.db.records, r.kind = .sourceExpiration ∧ ⟨"source", recordId⟩ ∈ r.links

instance (w : Archive X P V A) (recordId : String) : Decidable (w.marked recordId) :=
  inferInstanceAs (Decidable (∃ r ∈ _, _))

/-- `_expired(record, document)` -/
def expired (w : Archive X P V A) (now : Instant) (record : Record (SourceValue X))
    (document : SourceDocument) : Prop :=
  w.marked record.recordId ∨ document.expiresAt ≤ now

instance (w : Archive X P V A) (now : Instant) (record : Record (SourceValue X))
    (document : SourceDocument) : Decidable (w.expired now record document) :=
  inferInstanceAs (Decidable (_ ∨ _))

structure View where
  recordId : String
  document : SourceDocument
  available : Bool
  reason : Option String
deriving DecidableEq

/-- `describe(record_id)` -/
def describe (g : Digest A) (now : Instant) (w : Archive X P V A) (recordId : String) :
    Attempt View := do
  let (record, document) ← w.document recordId
  let gone := decide (w.expired now record document)
  let available := !gone && (w.bytes g document.contentHash).isSome
  pure ⟨recordId, document, available,
    if available then none
    else if gone then some "source_policy_expired" else some "artifact_missing_or_corrupt"⟩

/-- `read_bytes(record_id)` -/
def readBytes (g : Digest A) (now : Instant) (w : Archive X P V A) (recordId : String) :
    Attempt A := do
  let view ← w.describe g now recordId
  refuse (view.available = false)
    ⟨.missing, "source original is unavailable; metadata and hash remain"⟩
  need (w.bytes g view.document.contentHash) ⟨.missing, view.document.contentHash⟩

def sourceRequest (g : Digest A) (experimentId testId submissionIdentity : String)
    (document : SourceDocument) : Prepared (SourceValue X) where
  experimentId := experimentId
  kind := .sourceDocument
  recordId := g.identity experimentId "source" document.sourceId
  submissionIdentity := submissionIdentity
  value := .data (.document document)
  links := [⟨"test", testId⟩]
  artifactHashes := []
  sourcePolicyHashes := [document.contentHash]

/-- `register(experiment_id, test_id, document, submission_identity=…)` -/
def register (g : Digest A) (now : Instant) (faults : FaultPoint → Bool)
    (experimentId testId submissionIdentity : String) (document : SourceDocument)
    (w : Archive X P V A) : Attempt (Record (SourceValue X)) × Archive X P V A :=
  let request := sourceRequest g experimentId testId submissionIdentity document
  let checked : Attempt (Option (Record (SourceValue X))) := do
    let test ← w.db.read testId
    refuse (test.kind ≠ .test ∨ test.experimentId ≠ experimentId)
      (conflict "source must belong to a test in the same experiment")
    match w.db.submitted request with
    | some original => do
        refuse (original.recordId ≠ request.recordId ∨ original.value ≠ request.value
            ∨ original.links ≠ request.links)
          (conflict "source submission identity has different content")
        pure (some original)
    | none => do
        refuse (document.expiresAt ≤ now)
          (invalidValue "cannot register already-expired source bytes")
        pure none
  match checked with
  | .error e => (.error e, w)
  | .ok (some original) => (.ok original, w)
  | .ok none => w.put g now faults request

/-- The links to an artifact, with the retention of each. -/
def refs (w : Archive X P V A) (contentHash : String) :
    List (Record (SourceValue X) × String) :=
  w.db.records.flatMap fun r =>
    (if contentHash ∈ r.artifactHashes then [(r, "permanent")] else [])
      ++ if contentHash ∈ r.sourcePolicyHashes then [(r, sourcePolicy)] else []

def soleExpired (w : Archive X P V A) (now : Instant) :
    List (Record (SourceValue X) × String) → Attempt Bool
  | [] => pure true
  | (record, retention) :: rest =>
      if retention ≠ sourcePolicy then pure false
      else if record.kind ≠ .sourceDocument then pure false
      else do
        let other ← documentOf record
        if ¬ w.expired now record other then pure false else w.soleExpired now rest

/-- `deletable` -/
def deletable (w : Archive X P V A) (now : Instant) (contentHash : String) : Attempt Bool := do
  let free ← w.soleExpired now (w.refs contentHash)
  pure (decide (∃ row ∈ w.artifacts.get? contentHash, row.retentionClass = sourcePolicy) && free)

/-- The second transaction of `expire`: whether it deleted the bytes. -/
def sweep (now : Instant) (crash : SweepFault → Bool) (contentHash : String)
    (w : Archive X P V A) : Attempt Bool × Archive X P V A :=
  let fault (point : SweepFault) : Failure := ⟨.fault, reprStr point⟩
  match w.deletable now contentHash with
  | .error e => (.error e, w)
  | .ok false =>
      if crash .beforeCommit ∨ crash .afterCommit then (.error (fault .beforeCommit), w)
      else (.ok false, w)
  | .ok true =>
      if crash .beforeSourceUnlink then (.error (fault .beforeSourceUnlink), w)
      else
        -- The file is gone whether the transaction commits or not.
        let unlinked := { w with files := w.files.erase contentHash }
        if crash .afterSourceUnlink ∨ crash .beforeCommit then
          (.error (fault .afterSourceUnlink), unlinked)
        else
          let done := { unlinked with
            artifacts := unlinked.artifacts.map fun k row =>
              if k = contentHash then { row with availability := "expired" } else row }
          if crash .afterCommit then (.error (fault .afterCommit), done) else (.ok true, done)

structure Expiry (X : Type) where
  expiration : Record (SourceValue X)
  bytesDeleted : Bool
  view : View
deriving DecidableEq

def expirationRequest (g : Digest A) (record : Record (SourceValue X))
    (document : SourceDocument) (submissionIdentity : String) : Prepared (SourceValue X) where
  experimentId := record.experimentId
  kind := .sourceExpiration
  recordId := g.identity record.experimentId "expiry" submissionIdentity
  submissionIdentity := submissionIdentity
  value := .data (.expiration record.recordId document.contentHash document.expiresAt)
  links := [⟨"source", record.recordId⟩]
  artifactHashes := []
  sourcePolicyHashes := []

/-- `expire(record_id, submission_identity=…)` -/
def expire (g : Digest A) (now : Instant) (faults : FaultPoint → Bool)
    (crash : SweepFault → Bool) (recordId submissionIdentity : String) (w : Archive X P V A) :
    Attempt (Expiry X) × Archive X P V A :=
  match w.document recordId with
  | .error e => (.error e, w)
  | .ok (record, document) =>
      if now < document.expiresAt then
        (.error (conflict "source has not reached its retention deadline"), w)
      else
        match w.put g now faults (expirationRequest g record document submissionIdentity) with
        | (.error e, w) => (.error e, w)
        | (.ok expiration, w) =>
            match w.sweep now crash document.contentHash with
            | (.error e, w) => (.error e, w)
            | (.ok bytesDeleted, w) =>
                (do
                  let view ← w.describe g now recordId
                  pure ⟨expiration, bytesDeleted, view⟩, w)

end Archive

/-! ## Turns -/

/-- What may happen to the archive. -/
inductive Act (X A : Type)
  /-- Any record is inserted. -/
  | put (request : Prepared (SourceValue X))
  /-- Bytes are stored. -/
  | store (bytes : A)
  /-- The research repository stores bytes and records them, if it gets that far. -/
  | artifact (bytes : A) (retentionClass : String) (recorded : Bool)
  | register (experimentId testId submissionIdentity : String) (document : SourceDocument)
  | expire (recordId submissionIdentity : String) (crash : SweepFault → Bool)

structure Turn (X A : Type) where
  act : Act X A
  now : Instant
  faults : FaultPoint → Bool

def Turn.after (g : Digest A) (turn : Turn X A) (w : Archive X P V A) : Archive X P V A :=
  match turn.act with
  | .put request => (w.put g turn.now turn.faults request).2
  | .store a =>
      match w.store g a with
      | .ok w' => w'
      | .error _ => w
  | .artifact a retentionClass recorded =>
      match w.store g a with
      | .ok w' => if recorded then w'.recordArtifact (g.hash a) retentionClass else w'
      | .error _ => w
  | .register experimentId testId submissionIdentity document =>
      (w.register g turn.now turn.faults experimentId testId submissionIdentity document).2
  | .expire recordId submissionIdentity crash =>
      (w.expire g turn.now turn.faults crash recordId submissionIdentity).2

def Archive.start (experiments : List String) : Archive X P V A :=
  ⟨⟨experiments, [], [], Dict.empty, [], Dict.empty, Dict.empty, none⟩, Dict.empty, Dict.empty⟩

end Ahunter.Records
