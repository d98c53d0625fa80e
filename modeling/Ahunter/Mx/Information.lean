import Ahunter.Lib.Paging
import Ahunter.Mx.Images

/-!
# The information view

The reader of stored messages and images checks every field it takes out of
the tables, whoever wrote them: a page of events comes out whole or not at
all. Event and media identifiers leave it sealed and come back so; a token is
what it seals, and one that was not sealed here is forged.

Instants are milliseconds and are formatted in Shanghai's time, which is
eight hours ahead of UTC and ends with the year 9999.
-/

namespace Ahunter.Mx

open Ahunter.Lib

/-! ## Requests -/

inductive ReadError
  | validation (text : String)
  | unavailable
  | notFound (text : String)
  | cursorConflict (text : String)
  | dateOutOfRange
deriving DecidableEq, Repr

inductive Authorization
  | current
  | revoked
deriving DecidableEq, Repr

/-- `_Filters` -/
structure Filters where
  rids : List ℤ
  authorization : Option Authorization
  startAt : Option ℤ
  endAt : Option ℤ
  hasMedia : Option Bool
  query : Option String
deriving DecidableEq, Repr

/-- What `_seal` returns, by what it seals. -/
inductive Token
  | event (eventId : String)
  | media (eventId urlHash : String)
  | cursor (filters : Filters) (receivedAt : ℕ) (eventId : String)
  | forged (text : String)
deriving DecidableEq, Repr

/-- The arguments of `list_events`. -/
structure Request where
  filters : Filters
  limit : ℕ
  cursor : Option Token
deriving DecidableEq, Repr

structure Reader where
  /-- `datetime.fromtimestamp(value / 1000, tz=_SHANGHAI).isoformat()` -/
  isoformat : ℕ → String
  /-- `_safe_text(value, limit)` -/
  safeText : String → ℕ → String
  /-- `_normalize_query(value)` -/
  normalizeQuery : String → Except ReadError (Option String)
  /-- whether the search finds a query in a text -/
  searchHit : String → String → Bool

/-! ## Checks -/

def asciiAlphanumeric (c : Char) : Bool :=
  ('A' ≤ c && c ≤ 'Z') || ('a' ≤ c && c ≤ 'z') || ('0' ≤ c && c ≤ '9')

/-- `_EVENT_ID` -/
def isEventId (value : String) : Bool :=
  match value.toList with
  | [] => false
  | c :: cs => asciiAlphanumeric c && cs.length ≤ 127 &&
      cs.all fun c => asciiAlphanumeric c || c ∈ ['_', '.', ':', '-']

/-- `_HASH` -/
def isHash (value : String) : Bool :=
  value.toList.length = 64 &&
    value.toList.all fun c => ('0' ≤ c && c ≤ '9') || ('a' ≤ c && c ≤ 'f')

def requireEventId (value : String) : Except ReadError String := do
  refuse (isEventId value = false) (.validation "invalid event")
  pure value

def requireHash (value : String) : Except ReadError String := do
  refuse (isHash value = false) (.validation "invalid hash")
  pure value

def maxSafeInteger : ℤ := 2 ^ 53 - 1

def requireRid (value : ℤ) : Except ReadError ℤ := do
  refuse (¬ (0 < value ∧ value ≤ maxSafeInteger)) (.validation "invalid RID")
  pure value

/-- `_require_millis(value)` -/
def requireMillis : Cell → Except ReadError ℕ
  | .integer value => do
      refuse (¬ (0 ≤ value ∧ value ≤ 2 ^ 63 - 1)) (.validation "invalid timestamp")
      pure value.toNat
  | _ => .error (.validation "invalid timestamp")

/-- The first millisecond after the last year of a date in Shanghai. -/
def endOfDates : ℕ := 253402272000000

/-- `_format_millis(value)` -/
def formatMillis (reader : Reader) (value : Cell) : Except ReadError String := do
  let millis ← requireMillis value
  refuse (endOfDates ≤ millis) .dateOutOfRange
  pure (reader.isoformat millis)

/-- `_format_millis_optional(value)` -/
def formatMillisOptional (reader : Reader) (value : Cell) :
    Except ReadError (Option String) :=
  match value with
  | .null => .ok none
  | value => some <$> formatMillis reader value

def maxMediaPerEvent : ℕ := 20

/-- `_safe_count(value)` -/
def safeCount (value : ℕ) : Except ReadError ℕ := do
  refuse (maxMediaPerEvent * 1000 < value) .unavailable
  pure value

/-! ## Rows -/

/-- Where an event stands in a listing. -/
abbrev Position := ℕ ×ₗ String

def position (e : String × EventRow) : Position := toLex (e.2.receivedAt, e.1)

def mediaCount (store : Store) (eventId : String) : ℕ :=
  (store.media.keys.filter fun key => (ofLex key).1 = eventId).length

def pendingCount (store : Store) (eventId : String) : ℕ :=
  (store.mediaJobs.entries.filter fun e =>
    (ofLex e.1).1 = eventId ∧ e.2.status ≠ .completed).length

/-- What `_event_item` makes of a row. -/
structure EventItem where
  eventId : Token
  rid : ℤ
  authorization : Authorization
  receivedAt : String
  sourceCreatedAt : Option String
  contentHash : String
deriving DecidableEq

/-- `_event_item(row, allowed, include_summary=False)` -/
def eventItem (reader : Reader) (allowed : List ℤ) (e : String × EventRow) :
    Except ReadError EventItem := do
  let eventId ← requireEventId e.1
  let rid ← requireRid e.2.rid
  let receivedAt ← formatMillis reader (.integer e.2.receivedAt)
  let sourceCreatedAt ← formatMillisOptional reader e.2.sourceCreatedAt
  let contentHash ← requireHash e.2.contentHash
  pure {
    eventId := .event eventId
    rid := rid
    authorization := if rid ∈ allowed then .current else .revoked
    receivedAt := receivedAt
    sourceCreatedAt := sourceCreatedAt
    contentHash := contentHash }

/-- An event of a page. -/
structure ListedItem where
  item : EventItem
  summary : String
  availableCount : ℕ
  pendingCount : ℕ
  hasMedia : Bool
deriving DecidableEq

def maxSummaryChars : ℕ := 800

/-- `_event_item(row, allowed)` -/
def listedItem (reader : Reader) (allowed : List ℤ) (store : Store)
    (e : String × EventRow) : Except ReadError ListedItem := do
  let item ← eventItem reader allowed e
  let available ← safeCount (mediaCount store e.1)
  let pending ← safeCount (pendingCount store e.1)
  pure {
    item := item
    summary := reader.safeText e.2.decodedText maxSummaryChars
    availableCount := available
    pendingCount := pending
    hasMedia := 0 < available || 0 < pending }

/-! ## Pages -/

/-- `_normalize_rids(values)` -/
def normalizeRids (values : List ℤ) : Except ReadError (List ℤ) := do
  refuse (100 < values.length ∨ ¬ (∀ value ∈ values, 0 < value ∧ value ≤ maxSafeInteger) ∨
    ¬ values.Nodup) (.validation "invalid RIDs")
  pure (values.insertionSort (· ≤ ·))

/-- `_normalize_millis(value)` -/
def normalizeMillis (value : Option ℤ) : Except ReadError (Option ℤ) := do
  refuse (∃ v ∈ value, ¬ (0 ≤ v ∧ v ≤ 2 ^ 63 - 1)) (.validation "invalid timestamp")
  pure value

/-- The filters that `list_events` makes of its arguments. -/
def normalizeFilters (reader : Reader) (filters : Filters) : Except ReadError Filters := do
  let rids ← normalizeRids filters.rids
  let startAt ← normalizeMillis filters.startAt
  let endAt ← normalizeMillis filters.endAt
  let query ← match filters.query with
    | none => .ok none
    | some text => reader.normalizeQuery text
  pure { filters with
    rids := rids
    startAt := startAt
    endAt := endAt
    query := query }

/-- `_decode_cursor(token, filters)` -/
def decodeCursor (filters : Filters) : Token → Except ReadError Position
  | .cursor sealedFilters receivedAt eventId => do
      refuse (sealedFilters ≠ filters) (.cursorConflict "cursor conflict")
      refuse (2 ^ 63 - 1 < receivedAt ∨ isEventId eventId = false)
        (.cursorConflict "cursor invalid")
      pure (toLex (receivedAt, eventId))
  | _ => .error (.notFound "opaque identifier invalid")

def bounded {α : Type} (bound : Option α) (p : α → Bool) : Bool := bound.all p

/-- `_where_clause(filters, allowed, cursor)` of a row. -/
def selects (reader : Reader) (now : ℕ) (allowed : List ℤ) (store : Store)
    (filters : Filters) (cursor : Option Position) (e : String × EventRow) : Bool :=
  e.2.receivedAt ≤ now &&
    (filters.rids = [] || e.2.rid ∈ filters.rids) &&
    (bounded filters.authorization fun
      | .current => e.2.rid ∈ allowed
      | .revoked => e.2.rid ∉ allowed) &&
    (bounded filters.startAt fun startAt => startAt ≤ e.2.receivedAt) &&
    (bounded filters.endAt fun endAt => e.2.receivedAt ≤ endAt) &&
    (bounded filters.hasMedia fun hasMedia => hasMedia = (mediaCount store e.1 ≠ 0)) &&
    (bounded filters.query fun query => reader.searchHit query e.2.decodedText) &&
    bounded cursor fun cursor => position e < cursor

/-- `ORDER BY e.received_at DESC, e.event_id DESC` -/
def orderedEvents (store : Store) : List (String × EventRow) :=
  store.events.entries.insertionSort fun a b => position b ≤ position a

/-- What `list_events` returns. -/
structure Page where
  events : List ListedItem
  nextCursor : Option Token
  limit : ℕ
deriving DecidableEq

/-- `self._decode_cursor(cursor, filters) if cursor else None` -/
def requestedPosition (filters : Filters) :
    Option Token → Except ReadError (Option Position)
  | none => .ok none
  | some token => some <$> decodeCursor filters token

def selectedRows (reader : Reader) (now : ℕ) (allowed : List ℤ) (store : Store)
    (filters : Filters) (cursor : Option Position) (limit : ℕ) : List (String × EventRow) :=
  ((orderedEvents store).filter (selects reader now allowed store filters cursor)).take
    (limit + 1)

def nextCursor (filters : Filters) (limit : ℕ) (rows : List (String × EventRow)) :
    Except ReadError (Option Token) :=
  if limit < rows.length then
    match (rows.take limit).getLast? with
    | none => .ok none
    | some last => do
        let receivedAt ← requireMillis (.integer last.2.receivedAt)
        let eventId ← requireEventId last.1
        pure (some (.cursor filters receivedAt eventId))
  else .ok none

/-- `list_events(…)` -/
def listEvents (reader : Reader) (now : ℕ) (allowed : List ℤ) (store : Store)
    (request : Request) : Except ReadError Page := do
  let filters ← normalizeFilters reader request.filters
  refuse (∃ startAt ∈ filters.startAt, ∃ endAt ∈ filters.endAt, endAt < startAt)
    (.validation "invalid time range")
  refuse (¬ (1 ≤ request.limit ∧ request.limit ≤ 100)) (.validation "invalid page size")
  let cursor ← requestedPosition filters request.cursor
  let rows := selectedRows reader now allowed store filters cursor request.limit
  let next ← nextCursor filters request.limit rows
  let events ← gather (listedItem reader allowed store) (rows.take request.limit)
  pure { events := events, nextCursor := next, limit := request.limit }

/-! ## Details -/

inductive Block
  | text (text : String)
  | media (mediaId : Token) (contentHash : String) (contentType : ImageType)
deriving DecidableEq

structure Detail where
  item : EventItem
  blocks : List Block
deriving DecidableEq

def maxDetailChars : ℕ := 12000

def mediaRows (store : Store) (eventId : String) : List (MediaKey × MediaRow) :=
  (store.media.entries.filter fun e => (ofLex e.1).1 = eventId).insertionSort fun a b =>
    toLex (a.2.downloadedAt, a.2.contentHash) ≤ toLex (b.2.downloadedAt, b.2.contentHash)

def mediaBlock (eventId : String) (e : MediaKey × MediaRow) : Except ReadError Block := do
  let urlHash ← requireHash (ofLex e.1).2
  let contentHash ← requireHash e.2.contentHash
  pure (.media (.media eventId urlHash) contentHash e.2.contentType)

def orNotice (store : Store) (eventId : String) (blocks : List Block) :
    Except ReadError (List Block) :=
  if blocks = [] then do
    let pending ← safeCount (pendingCount store eventId)
    pure [.text (if 0 < pending then "该资讯包含图片，正在安全处理。"
      else "该资讯没有可展示的规范化内容。")]
  else .ok blocks

/-- `event_detail(opaque_event_id)` -/
def eventDetail (reader : Reader) (now : ℕ) (allowed : List ℤ) (store : Store)
    (token : Token) : Except ReadError Detail := do
  let eventId ← match token with
    | .event eventId => requireEventId eventId
    | _ => .error (.notFound "opaque identifier invalid")
  let row ← need (store.events.get? eventId) (.notFound "event not found")
  refuse (now < row.receivedAt) (.notFound "event not found")
  let media := (mediaRows store eventId).take (maxMediaPerEvent + 1)
  refuse (maxMediaPerEvent < media.length) .unavailable
  let item ← eventItem reader allowed (eventId, row)
  let text := reader.safeText row.decodedText maxDetailChars
  let images ← gather (mediaBlock eventId) media
  let blocks ← orNotice store eventId
    ((if text = "" then [] else [.text text]) ++ images)
  pure { item := item, blocks := blocks }

/-! ## Images -/

/-- The parts of a path that `_safe_media_relative_path` accepts. -/
def safePart (part : String) : Bool :=
  part ∉ ["", ".", ".."] && part.toList.all fun c => c ∉ ['/', '\\'] && 32 ≤ c.toNat

/-- `_safe_media_relative_path(value)`, of the parts of the value. -/
def safeMediaPath (parts : List String) : Bool :=
  (String.intercalate "/" parts).toList.length ≤ 512 &&
    parts.take 2 = ["data", "media"] && 4 ≤ parts.length && parts.all safePart

/-- `_matches_image_type(head, content_type)` -/
def matchesImageType (head : Bytes) : ImageType → Bool
  | .jpeg => head.take 3 = [0xff, 0xd8, 0xff]
  | .png => head.take 8 = [0x89, 0x50, 0x4e, 0x47, 0x0d, 0x0a, 0x1a, 0x0a]
  | .gif => head.take 6 ∈ [ascii "GIF87a", ascii "GIF89a"]
  | .webp => 12 ≤ head.length && head.take 4 = ascii "RIFF" && slice head 8 12 = ascii "WEBP"
  | .avif => 12 ≤ head.length && slice head 4 8 = ascii "ftyp" &&
      slice head 8 12 ∈ avifBrands

structure MediaDescriptor where
  bytes : Bytes
  contentType : ImageType
  size : ℕ
deriving DecidableEq

/-- `_open_media_file(local_path, content_type)` -/
def openMediaFile (files : List String → Option Bytes) (localPath : List String)
    (contentType : ImageType) : Except ReadError MediaDescriptor := do
  refuse (safeMediaPath localPath = false) (.notFound "media not found")
  let bytes ← need (files localPath) (.notFound "media not found")
  refuse (bytes.length < 1 ∨ imageLimit < bytes.length) (.notFound "media not found")
  refuse (matchesImageType (bytes.take 32) contentType = false) (.notFound "media not found")
  pure { bytes := bytes, contentType := contentType, size := bytes.length }

/-- `open_media(opaque_event_id, opaque_media_id)` -/
def openMedia (store : Store) (files : List String → Option Bytes)
    (eventToken mediaToken : Token) : Except ReadError MediaDescriptor := do
  let eventId ← match eventToken with
    | .event eventId => requireEventId eventId
    | _ => .error (.notFound "opaque identifier invalid")
  let (tokenEvent, urlHash) ← match mediaToken with
    | .media tokenEvent urlHash => .ok (tokenEvent, urlHash)
    | _ => .error (.notFound "opaque identifier invalid")
  refuse (tokenEvent ≠ eventId) (.notFound "media not found")
  let urlHash ← requireHash urlHash
  let row ← need (store.media.get? (mediaKey eventId urlHash)) (.notFound "media not found")
  openMediaFile files row.localPath row.contentType

/-! ## The research feed

The research side reads one room's events of a window: after its start, up to
its end. A feed is passed, or it is blocked for a reason and has no items. The
window is compared with the hour buckets that decode failures are kept in by
the start of the bucket. -/

inductive FeedStatus
  | unavailable
  | blocked
  | passed
deriving DecidableEq, Repr

structure FeedItem where
  eventId : Token
  rid : ℤ
  receivedAt : String
  sourceCreatedAt : Option String
  contentHash : String
  summary : String
  availableCount : ℕ
  pendingCount : ℕ
  hasMedia : Bool
deriving DecidableEq

/-- `item.pop("authorization", None)` -/
def ListedItem.feedItem (listed : ListedItem) : FeedItem where
  eventId := listed.item.eventId
  rid := listed.item.rid
  receivedAt := listed.item.receivedAt
  sourceCreatedAt := listed.item.sourceCreatedAt
  contentHash := listed.item.contentHash
  summary := listed.summary
  availableCount := listed.availableCount
  pendingCount := listed.pendingCount
  hasMedia := listed.hasMedia

structure Feed where
  rid : ℤ
  status : FeedStatus
  reason : String
  items : List FeedItem
deriving DecidableEq

/-- `(start_at, end_at]` -/
def within (startAt endAt at_ : ℕ) : Bool := startAt < at_ && at_ ≤ endAt

/-- `WHERE bucket_start > ? AND bucket_start <= ? AND count > 0` -/
def globalFailure (store : Store) (startAt endAt : ℕ) : Bool :=
  store.decodeFailures.entries.any fun e =>
    within startAt endAt (ofLex (ofLex e.1).2).2 && 0 < e.2

/-- `WHERE e.rid = ? AND e.received_at > ? AND e.received_at <= ?`, latest first. -/
def feedRows (store : Store) (rid : ℤ) (startAt endAt : ℕ) : List (String × EventRow) :=
  (orderedEvents store).filter fun e => e.2.rid = rid && within startAt endAt e.2.receivedAt

/-- `row["source_created_at"] is not None and _require_millis(…) > end_at` -/
def createdLater (endAt : ℕ) (created : Cell) : Except ReadError Bool :=
  match created with
  | .null => .ok false
  | created => do
      let millis ← requireMillis created
      pure (decide (endAt < millis))

/-- `_safe_count(row["pending_media_count"]) > 0` -/
def unfinished (store : Store) (e : String × EventRow) : Except ReadError Bool := do
  let pending ← safeCount (pendingCount store e.1)
  pure (decide (0 < pending))

/-- `store.read_accepted_rid_feed(rid=…, start_at=…, end_at=…, limit=…)` -/
def readAcceptedRidFeed (reader : Reader) (allowed : List ℤ) (store : Store) (rid startAt endAt : ℤ)
    (limit : ℕ) : Except ReadError Feed := do
  let rid ← requireRid rid
  let startAt ← requireMillis (.integer startAt)
  let endAt ← requireMillis (.integer endAt)
  refuse (endAt ≤ startAt ∨ ¬ (1 ≤ limit ∧ limit ≤ 5000))
    (.validation "invalid research feed range")
  if rid ∉ allowed then
    pure ⟨rid, .unavailable, "RID authorization is not current", []⟩
  else if globalFailure store startAt endAt then
    pure ⟨rid, .blocked, "unattributed decode or integrity failure", []⟩
  else
    let rows := (feedRows store rid startAt endAt).take (limit + 1)
    if limit < rows.length then
      pure ⟨rid, .blocked, "RID feed item limit exceeded", []⟩
    else do
      let later ← rows.anyM fun e => createdLater endAt e.2.sourceCreatedAt
      if later then
        pure ⟨rid, .blocked, "event is after the research boundary", []⟩
      else do
        let pending ← rows.anyM (unfinished store)
        if pending then
          pure ⟨rid, .blocked, "media processing is pending or failed", []⟩
        else do
          let items ← gather (fun e => ListedItem.feedItem <$> listedItem reader allowed store e)
            rows
          pure ⟨rid, .passed, "", items⟩

end Ahunter.Mx
