import Ahunter.Lib.Dict
import Ahunter.Mx.Content
import Mathlib.Data.String.Basic

/-!
# Accepted messages and the event store

`classifyFrame` looks at nothing but the room number before it accepts a
message: every other field is taken as it comes. The store is four SQLite
tables with the counters beside them, each method one transaction, and an
error inside a method leaves the tables as they were.

A column is dynamic: what `source_created_at` holds after an insertion is what
SQLite makes of the bound value under the column's affinity. A number that is
an integer of 64 bits becomes an integer and any other one stays a real; what
becomes of a text is SQLite's to say. Values that are neither null nor a
number nor a text cannot be bound.
-/

namespace Ahunter.Mx

open Ahunter.Lib

/-! ## Classification -/

/-- What `classifyFrame` makes of an accepted message. -/
structure Event where
  eventId : String
  schemaVersion : ℕ
  rid : ℤ
  sourceMessageId : Option String
  oid : Option String
  receivedAt : ℕ
  sourceCreatedAt : Option Json
  rawPayloadHash : String
  rawPayload : String
  decodedText : String
  parsedContent : Content
  contentHash : String

inductive Classified
  | rejected
  | failed (payloadHash errorClass : String)
  | accepted (event : Event)

/-- `Number.isSafeInteger(value)`, with the integer. -/
def safeInteger : Option Json → Option ℤ
  | some (.number (.finite value)) =>
      if value.den = 1 ∧ -(2 ^ 53 - 1) ≤ value.num ∧ value.num ≤ 2 ^ 53 - 1 then
        some value.num
      else none
  | _ => none

/-- `value == null ? null : String(value)` -/
def optionalText (rt : Runtime) (value : Option Json) : Except String (Option String) :=
  match value with
  | none | some .null => .ok none
  | some value => do
      let text ← jsString rt own value
      .ok (some text)

def sourceIdentity (rt : Runtime) (id oid createtime : Option Json) (receivedAt : ℕ)
    (identityContentHash : String) : Except String String :=
  match nullish id (nullish oid none) with
  | some value => jsString rt own value
  | none => do
      let created ← match nullish createtime none with
        | some value => jsString rt own value
        | none => .ok (rt.render (.finite receivedAt))
      .ok (created ++ ":" ++ identityContentHash)

/-- The part of `classifyFrame` that works on a message whose room is allowed. -/
def acceptMessage (rt : Runtime) (frame : String) (receivedAt : ℕ) (rid : ℤ)
    (value : Json) : Except String Event := do
  let msg ← need (own "msg" value) "TypeError"
  let identityParsed := parseNestedMessage rt msg
  let identityContentHash := rt.sha256 (rt.stringify identityParsed)
  let content ← extractContent rt identityParsed
  let identity ← sourceIdentity rt (own "id" value) (own "oid" value)
    (own "createtime" value) receivedAt identityContentHash
  let sourceMessageId ← optionalText rt (own "id" value)
  let oid ← optionalText rt (own "oid" value)
  pure {
    eventId := rt.sha256 (toString rid ++ ":" ++ identity)
    schemaVersion := 2
    rid := rid
    sourceMessageId := sourceMessageId
    oid := oid
    receivedAt := receivedAt
    sourceCreatedAt := nullish (own "createtime" value) none
    rawPayloadHash := rt.sha256 frame
    rawPayload := frame
    decodedText := String.intercalate "\n" content.texts
    parsedContent := content
    contentHash := rt.sha256 (rt.stringify content.parsed) }

/-- `classifyFrame({frame, receivedAt, allowedRids})` -/
def classifyFrame (rt : Runtime) (allowedRids : List ℤ) (frame : String)
    (receivedAt : ℕ) : Classified :=
  let attempt : Except String Classified := do
    let value ← rt.decodeRoomFrame frame receivedAt
    let rid ← value.property "rid"
    match safeInteger rid with
    | some rid =>
        if rid ∈ allowedRids then do
          let event ← acceptMessage rt frame receivedAt rid value
          pure (.accepted event)
        else pure .rejected
    | none => pure .rejected
  match attempt with
  | .ok result => result
  | .error errorClass => .failed (rt.sha256 frame) errorClass

theorem classifyFrame_accepted {rt : Runtime} {allowedRids : List ℤ} {frame : String}
    {receivedAt : ℕ} {event : Event}
    (h : classifyFrame rt allowedRids frame receivedAt = .accepted event) :
    ∃ value, rt.decodeRoomFrame frame receivedAt = .ok value ∧
      ∃ rid ∈ allowedRids, acceptMessage rt frame receivedAt rid value = .ok event := by
  simp only [classifyFrame] at h
  split at h
  · next result hattempt =>
      subst h
      obtain ⟨value, hvalue, hattempt⟩ := bind_ok.mp hattempt
      obtain ⟨property, -, hattempt⟩ := bind_ok.mp hattempt
      split at hattempt
      · next rid _ =>
          split at hattempt
          · next hrid =>
              obtain ⟨accepted, haccept, hattempt⟩ := bind_ok.mp hattempt
              cases hattempt
              exact ⟨value, hvalue, rid, hrid, haccept⟩
          · cases hattempt
      · cases hattempt
  · cases h

/-! ## Tables -/

/-- What a column of SQLite can hold. -/
inductive Cell
  | null
  | integer (value : ℤ)
  | real (value : Number)
  | text (value : String)
deriving DecidableEq

/-- A double in a column of INTEGER affinity. -/
def numberCell : Number → Cell
  | .finite value =>
      if value.den = 1 ∧ -2 ^ 63 < value.num ∧ value.num < 2 ^ 63 - 1 then
        .integer value.num
      else .real (.finite value)
  | .infinite negative => .real (.infinite negative)

/-- A value bound to a column of INTEGER affinity; `affinity` is what SQLite
makes of a text there. -/
def integerCell (affinity : String → Cell) : Option Json → Except String Cell
  | none | some .null => .ok .null
  | some (.number value) => .ok (numberCell value)
  | some (.string value) => .ok (affinity value)
  | some _ => .error "TypeError"

structure EventRow where
  schemaVersion : ℕ
  rid : ℤ
  sourceMessageId : Option String
  oid : Option String
  receivedAt : ℕ
  sourceCreatedAt : Cell
  rawPayloadHash : String
  rawPayload : Option String
  rawPayloadExpiresAt : ℕ
  decodedText : String
  contentHash : String
  ingestRunId : String
deriving DecidableEq

inductive ImageType
  | jpeg
  | png
  | webp
  | gif
  | avif
deriving DecidableEq, Repr

structure MediaRow where
  rid : ℤ
  sourceUrl : String
  contentHash : String
  contentType : ImageType
  localPath : List String
  downloadedAt : ℕ
deriving DecidableEq

inductive JobStatus
  | pending
  | failed
  | completed
deriving DecidableEq, Repr

structure MediaJob where
  rid : ℤ
  sourceUrl : String
  status : JobStatus
  attempts : ℕ
  nextAttemptAt : ℕ
  errorCode : Option String
deriving DecidableEq

/-- `(event_id, url_hash)` -/
abbrev MediaKey := String ×ₗ String

def mediaKey (eventId urlHash : String) : MediaKey := toLex (eventId, urlHash)

/-- `(bucket_start, kind)` -/
abbrev CounterKey := ℕ ×ₗ String

/-- `(payload_hash, error_class, bucket_start)` -/
abbrev FailureKey := String ×ₗ String ×ₗ ℕ

structure Store where
  ingestRuns : Dict String ℕ
  events : Dict String EventRow
  media : Dict MediaKey MediaRow
  mediaJobs : Dict MediaKey MediaJob
  decodeFailures : Dict FailureKey ℕ
  counters : Dict CounterKey ℕ
deriving DecidableEq

def Store.empty : Store where
  ingestRuns := Dict.empty
  events := Dict.empty
  media := Dict.empty
  mediaJobs := Dict.empty
  decodeFailures := Dict.empty
  counters := Dict.empty

/-! ## Methods -/

def thirtyDaysMs : ℕ := 30 * 24 * 60 * 60 * 1000

def hourMs : ℕ := 3600000

/-- `Math.floor(at / 3_600_000) * 3_600_000` -/
def bucketStart (at_ : ℕ) : ℕ := at_ / hourMs * hourMs

def eventRow (event : Event) (sourceCreatedAt : Cell) (ingestRunId : String) :
    EventRow where
  schemaVersion := event.schemaVersion
  rid := event.rid
  sourceMessageId := event.sourceMessageId
  oid := event.oid
  receivedAt := event.receivedAt
  sourceCreatedAt := sourceCreatedAt
  rawPayloadHash := event.rawPayloadHash
  rawPayload := some event.rawPayload
  rawPayloadExpiresAt := event.receivedAt + thirtyDaysMs
  decodedText := event.decodedText
  contentHash := event.contentHash
  ingestRunId := ingestRunId

/-- `INSERT OR IGNORE` -/
def setIfAbsent {κ α : Type} [LinearOrder κ] (d : Dict κ α) (k : κ) (v : α) : Dict κ α :=
  if d.contains k then d else d.set k v

def insertMediaJobs (rt : Runtime) (event : Event) (jobs : Dict MediaKey MediaJob) :
    Dict MediaKey MediaJob :=
  event.parsedContent.imageUrls.foldl (fun jobs sourceUrl =>
    setIfAbsent jobs (mediaKey event.eventId (rt.sha256 sourceUrl)) {
      rid := event.rid
      sourceUrl := sourceUrl
      status := .pending
      attempts := 0
      nextAttemptAt := event.receivedAt
      errorCode := none }) jobs

/-- `store.insertEvent(event, ingestRunId)`, with whether the event was new. -/
def Store.insertEvent (rt : Runtime) (affinity : String → Cell) (store : Store)
    (event : Event) (ingestRunId : String) : Except String (Store × Bool) := do
  let created ← integerCell affinity event.sourceCreatedAt
  let runs := setIfAbsent store.ingestRuns ingestRunId event.receivedAt
  if store.events.contains event.eventId then
    pure ({ store with ingestRuns := runs }, false)
  else
    pure ({ store with
      ingestRuns := runs
      events := store.events.set event.eventId (eventRow event created ingestRunId)
      mediaJobs := insertMediaJobs rt event store.mediaJobs }, true)

/-- `store.incrementCounter(kind, at)` -/
def Store.incrementCounter (store : Store) (kind : String) (at_ : ℕ) : Store :=
  let key : CounterKey := toLex (bucketStart at_, kind)
  { store with
    counters := store.counters.set key ((store.counters.get? key).getD 0 + 1) }

/-- `store.recordDecodeFailure(payloadHash, errorClass, at)` -/
def Store.recordDecodeFailure (store : Store) (payloadHash errorClass : String)
    (at_ : ℕ) : Store :=
  let key : FailureKey := toLex (payloadHash, toLex (errorClass, bucketStart at_))
  { store with
    decodeFailures := store.decodeFailures.set key
      ((store.decodeFailures.get? key).getD 0 + 1) }

/-- What `downloadImage` returns of an image. -/
structure Media where
  sourceUrl : String
  urlHash : String
  contentHash : String
  contentType : ImageType
  localPath : List String
deriving DecidableEq

/-- `insertMediaRecord(media)`: only for an event of the same room. -/
def Store.insertMedia (store : Store) (eventId : String) (rid : ℤ) (downloadedAt : ℕ)
    (media : Media) : Except String Store := do
  let row ← need (store.events.get? eventId) "Error"
  refuse (row.rid ≠ rid) "Error"
  pure { store with
    media := setIfAbsent store.media (mediaKey eventId media.urlHash) {
      rid := rid
      sourceUrl := media.sourceUrl
      contentHash := media.contentHash
      contentType := media.contentType
      localPath := media.localPath
      downloadedAt := downloadedAt } }

/-- `store.completeMediaJob(media)` -/
def Store.completeMediaJob (store : Store) (eventId : String) (rid : ℤ)
    (downloadedAt : ℕ) (media : Media) : Except String Store := do
  let store ← store.insertMedia eventId rid downloadedAt media
  let key := mediaKey eventId media.urlHash
  let job ← need (store.mediaJobs.get? key) "Error"
  pure { store with
    mediaJobs := store.mediaJobs.set key { job with
      status := .completed
      attempts := job.attempts + 1
      errorCode := none } }

/-- The `UPDATE` of a job whose download failed. -/
def Store.failMediaJob (store : Store) (key : MediaKey) (attempts nextAttemptAt : ℕ) :
    Store :=
  match store.mediaJobs.get? key with
  | none => store
  | some job => { store with
      mediaJobs := store.mediaJobs.set key { job with
        status := .failed
        attempts := attempts
        nextAttemptAt := nextAttemptAt
        errorCode := some "download_failed" } }

/-- `store.purgeExpiredPayloads(now)` -/
def Store.purgeExpiredPayloads (store : Store) (now : ℕ) : Store :=
  { store with
    events := store.events.map fun _ row =>
      if row.rawPayloadExpiresAt ≤ now then { row with rawPayload := none } else row }

end Ahunter.Mx
