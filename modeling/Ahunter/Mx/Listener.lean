import Ahunter.Mx.Events

/-!
# The listener

The listener takes frames, counts what became of them and keeps the images of
accepted messages. It is one JavaScript process: what happens in one turn of
its event loop is a list of writes, each a commit of its own, and between two
commits only a crash can come. The write that inserts an event decides which
counter follows it.

The turns are a frame, a download that was recorded, failed or could not be
recorded, the daily purge, and the reports of the parts that watch the queue,
the retention and the room configuration.
-/

namespace Ahunter.Mx

open Ahunter.Lib

/-! ## Counters -/

inductive CounterKind
  | accepted
  | duplicate
  | failed
  | ignored
  | mediaFailed
  | rejected
  | frameQueueOverflow
  | checkpointBusy
  | maintenanceFailed
  | configInvalid
  | configUnreadable
deriving DecidableEq, Repr

def CounterKind.code : CounterKind → String
  | .accepted => "accepted"
  | .duplicate => "duplicate"
  | .failed => "failed"
  | .ignored => "ignored"
  | .mediaFailed => "media_failed"
  | .rejected => "rejected"
  | .frameQueueOverflow => "frame_queue_overflow"
  | .checkpointBusy => "checkpoint_busy"
  | .maintenanceFailed => "maintenance_failed"
  | .configInvalid => "config_invalid"
  | .configUnreadable => "config_unreadable"

/-! ## Turns -/

/-- A commit. -/
inductive Write
  | insertEvent (event : Event)
  | count (kind : CounterKind) (at_ : ℕ)
  | decodeFailure (payloadHash errorClass : String) (at_ : ℕ)
  | completeMediaJob (eventId : String) (rid : ℤ) (downloadedAt : ℕ) (media : Media)
  | failMediaJob (eventId urlHash : String) (attempts nextAttemptAt : ℕ)
  | purgeExpiredPayloads (now : ℕ)

structure Listener where
  store : Store
  todo : List Write
  runId : String

def Listener.start (runId : String) : Listener := ⟨Store.empty, [], runId⟩

/-- `'42/msg,["room_msg",'` -/
def roomPrefix : String := "42/msg,[\"room_msg\","

/-- `acceptFrame({payloadData, receivedAt})`, up to the media drain. -/
def acceptFrame (rt : Runtime) (allowedRids : List ℤ) (payloadData : String)
    (receivedAt : ℕ) : List Write :=
  if roomPrefix.isPrefixOf payloadData = false then [.count .ignored receivedAt]
  else match classifyFrame rt allowedRids payloadData receivedAt with
    | .rejected => [.count .rejected receivedAt]
    | .failed payloadHash errorClass =>
        [.count .failed receivedAt, .decodeFailure payloadHash errorClass receivedAt]
    | .accepted event => [.insertEvent event]

inductive Turn
  | frame (allowedRids : List ℤ) (payloadData : String) (receivedAt : ℕ)
  | overflow (at_ : ℕ)
  | checkpointBusy (at_ : ℕ)
  | maintenanceFailed (at_ : ℕ)
  | configInvalid (at_ : ℕ)
  | configUnreadable (at_ : ℕ)
  | mediaFailed (at_ : ℕ)
  | downloaded (eventId : String) (rid : ℤ) (downloadedAt : ℕ) (media : Media)
  | notDownloaded (eventId urlHash : String) (attempts nextAttemptAt : ℕ)
  | purge (now : ℕ)

def Turn.writes (rt : Runtime) : Turn → List Write
  | .frame allowedRids payloadData receivedAt =>
      acceptFrame rt allowedRids payloadData receivedAt
  | .overflow at_ => [.count .frameQueueOverflow at_]
  | .checkpointBusy at_ => [.count .checkpointBusy at_]
  | .maintenanceFailed at_ => [.count .maintenanceFailed at_]
  | .configInvalid at_ => [.count .configInvalid at_]
  | .configUnreadable at_ => [.count .configUnreadable at_]
  | .mediaFailed at_ => [.count .mediaFailed at_]
  | .downloaded eventId rid downloadedAt media =>
      [.completeMediaJob eventId rid downloadedAt media]
  | .notDownloaded eventId urlHash attempts nextAttemptAt =>
      [.failMediaJob eventId urlHash attempts nextAttemptAt]
  | .purge now => [.purgeExpiredPayloads now]

def Write.commit (rt : Runtime) (affinity : String → Cell) (runId : String)
    (store : Store) : Write → Except String (Store × List Write)
  | .insertEvent event => do
      let (store, inserted) ← store.insertEvent rt affinity event runId
      let kind := if inserted then CounterKind.accepted else .duplicate
      pure (store, [.count kind event.receivedAt])
  | .count kind at_ => pure (store.incrementCounter kind.code at_, [])
  | .decodeFailure payloadHash errorClass at_ =>
      pure (store.recordDecodeFailure payloadHash errorClass at_, [])
  | .completeMediaJob eventId rid downloadedAt media => do
      let store ← store.completeMediaJob eventId rid downloadedAt media
      pure (store, [])
  | .failMediaJob eventId urlHash attempts nextAttemptAt =>
      pure (store.failMediaJob (mediaKey eventId urlHash) attempts nextAttemptAt, [])
  | .purgeExpiredPayloads now => pure (store.purgeExpiredPayloads now, [])

/-- What can happen to the listener. -/
inductive Action
  | turn (turn : Turn)
  | commit
  | crash (runId : String)

/-- One step: a turn starts when the last one is over, a commit takes the next
write of the turn, and a crash drops what is left of it. -/
def Listener.step (rt : Runtime) (affinity : String → Cell) (l : Listener) :
    Action → Option Listener
  | .turn turn =>
      match l.todo with
      | [] => some { l with todo := turn.writes rt }
      | _ :: _ => none
  | .commit =>
      match l.todo with
      | [] => none
      | write :: todo =>
          match write.commit rt affinity l.runId l.store with
          | .ok (store, more) => some { l with
              store := store
              todo := more ++ todo }
          | .error _ => some { l with todo := [] }
  | .crash runId => some { l with
      todo := []
      runId := runId }

def Listener.run (rt : Runtime) (affinity : String → Cell) (l : Listener) :
    List Action → Option Listener
  | [] => some l
  | action :: actions => do
      let l ← l.step rt affinity action
      l.run rt affinity actions

end Ahunter.Mx
