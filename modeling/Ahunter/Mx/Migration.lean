import Ahunter.Mx.Events

/-!
# The migration of stored content

Events that were stored before messages were normalised are read again: the parsed part of
the stored content goes through the extraction of today, and a row whose columns differ
from what comes out is rewritten. All of it is one transaction, and the counts of events,
media and jobs are compared around it.
-/

namespace Ahunter.Mx

open Ahunter.Lib

/-! ## Stored JSON -/

mutual

/-- What `JSON.parse` reads back of what `JSON.stringify` wrote: a prototype is not written,
and an infinite number is written as null. -/
def Json.restored : Json → Json
  | .number (.infinite _) => .null
  | .array items => .array (restoredItems items)
  | .object entries => .object (restoredEntries entries)
  | value => value

def restoredItems : List Json → List Json
  | [] => []
  | item :: items => item.restored :: restoredItems items

def restoredEntries : List (String × Json) → List (String × Json)
  | [] => []
  | (key, value) :: entries =>
      if key = protoKey then restoredEntries entries
      else (key, value.restored) :: restoredEntries entries

end

/-- The object that `extractContent` returns. -/
def Content.json (content : Content) : Json :=
  .object [("parsed", content.parsed), ("texts", .array (content.texts.map .string)),
    ("imageUrls", .array (content.imageUrls.map .string))]

/-! ## Rows -/

/-- The columns that the migration reads. -/
structure ContentRow where
  eventId : String
  schemaVersion : ℕ
  decodedText : String
  parsedContentJson : String
  contentHash : String
deriving DecidableEq

def Event.contentRow (rt : Runtime) (event : Event) : ContentRow where
  eventId := event.eventId
  schemaVersion := event.schemaVersion
  decodedText := event.decodedText
  parsedContentJson := rt.stringify event.parsedContent.json
  contentHash := event.contentHash

/-- `stored.parsed`, where it is there. -/
def storedParsed (rt : Runtime) (row : ContentRow) : Except String Json := do
  let stored ← need (rt.parse row.parsedContentJson) "SyntaxError"
  need (own "parsed" stored) "Error"

def migrateRow (rt : Runtime) (row : ContentRow) : Except String (ContentRow × Bool) := do
  let parsed ← storedParsed rt row
  let cleaned ← extractContent rt parsed
  let decodedText := String.intercalate "\n" cleaned.texts
  let parsedContentJson := rt.stringify cleaned.json
  let contentHash := rt.sha256 (rt.stringify cleaned.parsed)
  if row.schemaVersion ≠ 2 ∨ row.decodedText ≠ decodedText ∨
      row.parsedContentJson ≠ parsedContentJson ∨ row.contentHash ≠ contentHash then
    pure (⟨row.eventId, 2, decodedText, parsedContentJson, contentHash⟩, true)
  else pure (row, false)

/-- What the migration sees of the database: the events by their id, the counts of media and
of jobs, and how many of both have no event. -/
structure ContentDatabase where
  events : List ContentRow
  media : ℕ
  mediaJobs : ℕ
  orphans : ℕ
deriving DecidableEq

structure Migrated where
  scanned : ℕ
  updated : ℕ
deriving DecidableEq

/-- `migrateDisclaimerContent(database)`; an update writes no media, no job and no id, so the
counts and the orphans after it are those before, and an error leaves the database. -/
def migrateDisclaimerContent (rt : Runtime) (database : ContentDatabase) :
    Except String Migrated × ContentDatabase :=
  let attempt : Except String (List (ContentRow × Bool)) := do
    refuse (database.orphans ≠ 0) "Error"
    gather (migrateRow rt) database.events
  match attempt with
  | .error e => (.error e, database)
  | .ok rows =>
      (.ok ⟨rows.length, rows.countP Prod.snd⟩, { database with events := rows.map Prod.fst })

end Ahunter.Mx
