import Ahunter.Mx.Events

/-!
# The collector snapshot

The research side reads the listener's store on its own and blocks when it
finds anything it cannot account for. Only what it checks of the state of the
collector is here: the events up to the instant of the snapshot, the counters,
records of the future, media jobs and decode failures.
-/

namespace Ahunter.Mx

open Ahunter.Lib

def maxScanRows : ℕ := 1000

/-- `_COUNTER_KINDS` -/
def counterKinds : List String :=
  ["accepted", "duplicate", "failed", "ignored", "media_failed", "rejected"]

def eventScanLimit : String := "collector event scan limit exceeded"

def countersAmbiguous : String := "collector counters are ambiguous"

def countersUnmatched : String :=
  "collector accepted counter does not match stored events"

/-- The events the scan reads: `LIMIT ?` takes one more than it keeps. -/
def scannedEvents (store : Store) (asOf : ℕ) : List (String × EventRow) :=
  (store.events.entries.filter fun e => e.2.receivedAt ≤ asOf).take (maxScanRows + 1)

/-- `bucket_start, kind, count`, in the order of the key. -/
def scannedCounters (store : Store) (asOf : ℕ) : List (CounterKey × ℕ) :=
  (store.counters.entries.filter fun e => (ofLex e.1).1 ≤ asOf).take (maxScanRows + 1)

/-- The sum of the rows of kind `accepted`. -/
def acceptedSum (rows : List (CounterKey × ℕ)) : ℕ :=
  ((rows.filter fun e => (ofLex e.1).2 = "accepted").map Prod.snd).sum

def counterProblems (store : Store) (asOf : ℕ) : List String :=
  let allEvents := scannedEvents store asOf
  let counters := scannedCounters store asOf
  let kept := allEvents.take maxScanRows
  (if allEvents.length > maxScanRows then [eventScanLimit] else []) ++
    if counters.length > maxScanRows ∨ ∃ e ∈ counters, (ofLex e.1).2 ∉ counterKinds then
      [countersAmbiguous]
    else if acceptedSum counters ≠ kept.length then [countersUnmatched]
    else []

/-- `source_created_at > ?`: a text is more than any number. -/
def Cell.after (asOf : ℕ) : Cell → Bool
  | .null => false
  | .integer value => asOf < value
  | .real (.finite value) => (asOf : ℚ) < value
  | .real (.infinite negative) => !negative
  | .text _ => true

def futureDated (store : Store) (asOf : ℕ) : Bool :=
  store.events.values.any (fun row =>
      asOf < row.receivedAt || row.sourceCreatedAt.after asOf) ||
    store.counters.keys.any (fun key => asOf < (ofLex key).1) ||
    store.media.values.any (fun row => asOf < row.downloadedAt) ||
    store.ingestRuns.values.any (fun startedAt => asOf < startedAt) ||
    store.decodeFailures.keys.any fun key => asOf < (ofLex (ofLex key).2).2

/-- `problems` of the state of the collector. -/
def snapshotProblems (store : Store) (asOf : ℕ) : List String :=
  counterProblems store asOf ++
    if futureDated store asOf then ["collector contains future-dated records"] else []

end Ahunter.Mx
