import Ahunter.Mx.Download

/-!
# The media drain

The jobs of the images are worked off in batches: a batch is read from the
tables with the attempts each job has had, a few workers take its jobs one
after the other, and when the last one is settled the next batch is read, until
none is due. Between two waits the drain is alone in its process, and while it
waits the listener writes to the same tables.

One drain runs at a time. It has ended when it reads a batch without a job; the
next selection starts another.
-/

namespace Ahunter.Mx

open Ahunter.Lib

/-- The arguments of `drainMediaJobs`. A drain without workers would read the
same batch for ever, so there is one at least. -/
structure DrainOptions where
  eventId : String
  maxAttempts : ℕ
  maxConcurrent : ℕ
  batchSize : ℕ
  concurrent_pos : 0 < maxConcurrent

/-- `drainMediaJobs({ store, mediaRoot, signal, now })` -/
def DrainOptions.default : DrainOptions := ⟨"", 5, 3, 100, by decide⟩

/-- A row of a batch. -/
structure DueJob where
  key : MediaKey
  rid : ℤ
  sourceUrl : String
  attempts : ℕ
  eventReceivedAt : ℕ
deriving DecidableEq

/-- `jobs.status IN ('pending', 'failed') AND jobs.next_attempt_at <= ? AND
jobs.attempts < ?`, and of one event if there is one to drain. -/
def isDue (options : DrainOptions) (now : ℕ) (e : MediaKey × MediaJob) : Bool :=
  (e.2.status = .pending || e.2.status = .failed) && e.2.nextAttemptAt ≤ now &&
    e.2.attempts < options.maxAttempts &&
    (options.eventId = "" || (ofLex e.1).1 = options.eventId)

/-- `INNER JOIN events AS events ON events.event_id = jobs.event_id` -/
def joined (store : Store) (e : MediaKey × MediaJob) : Option DueJob :=
  (store.events.get? (ofLex e.1).1).map fun row => {
    key := e.1
    rid := e.2.rid
    sourceUrl := e.2.sourceUrl
    attempts := e.2.attempts
    eventReceivedAt := row.receivedAt }

/-- The batch of an instant. -/
def dueJobs (options : DrainOptions) (store : Store) (now : ℕ) : List DueJob :=
  ((((store.mediaJobs.entries.filter (isDue options now)).insertionSort fun a b =>
    toLex (a.2.nextAttemptAt, a.1) ≤ toLex (b.2.nextAttemptAt, b.1)).filterMap
      (joined store))).take (max 1 options.batchSize)

/-- `Math.min(60_000 * (2 ** Math.max(0, attempts - 1)), 3_600_000)` -/
def backoff (attempts : ℕ) : ℕ := min (60000 * 2 ^ (attempts - 1)) 3600000

/-- The tables, the jobs of the batch that no worker has taken yet, and those
being downloaded with the instant they were taken at. -/
structure Drain where
  store : Store
  queue : List DueJob
  running : List (DueJob × ℕ)

def Drain.start : Drain := ⟨Store.empty, [], []⟩

def Write.aside : Write → Bool
  | .completeMediaJob _ _ _ _ | .failMediaJob _ _ _ _ => false
  | _ => true

/-- What happens while jobs are drained. -/
inductive Move
  | write (runId : String) (write : Write)
  | select (now : ℕ)
  | take (now : ℕ)
  | settle (worker : ℕ) (attempted : Attempted)
  | abort

/-- The store after a download: what the `try` and the `catch` do. -/
def settled (rt : Runtime) (net : Net) (store : Store) (job : DueJob) (attemptedAt : ℕ)
    (attempted : Attempted) : Store :=
  let completed : Except String Store := do
    let media ← downloadUrl rt net job.sourceUrl job.eventReceivedAt attempted
    store.completeMediaJob (ofLex job.key).1 job.rid attemptedAt media
  match completed with
  | .ok store => store
  | .error _ =>
      store.failMediaJob job.key (job.attempts + 1) (attemptedAt + backoff (job.attempts + 1))

def Drain.step (options : DrainOptions) (rt : Runtime) (net : Net) (affinity : String → Cell)
    (d : Drain) : Move → Option Drain
  | .write runId write =>
      if write.aside then
        match write.commit rt affinity runId d.store with
        | .ok (store, _) => some { d with store := store }
        | .error _ => some d
      else none
  | .select now =>
      match d.queue, d.running with
      | [], [] => some { d with queue := dueJobs options d.store now }
      | _, _ => none
  | .take now =>
      match d.queue with
      | [] => none
      | job :: queue =>
          if d.running.length < options.maxConcurrent then
            some { d with
              queue := queue
              running := d.running ++ [(job, now)] }
          else none
  | .settle worker attempted =>
      match d.running[worker]? with
      | none => none
      | some (job, attemptedAt) => some { d with
          store := settled rt net d.store job attemptedAt attempted
          running := d.running.eraseIdx worker }
  | .abort => some { d with queue := [] }

def Drain.run (options : DrainOptions) (rt : Runtime) (net : Net) (affinity : String → Cell)
    (d : Drain) : List Move → Option Drain
  | [] => some d
  | move :: moves => do
      let d ← d.step options rt net affinity move
      d.run options rt net affinity moves

end Ahunter.Mx
