import Mathlib.Data.List.Basic

/-!
# The collector loop

The loop looks for a page to listen to, takes its frames, and tries again when it
loses it. A frame is handed to the collector in a task of its own; a few tasks run at a
time, some frames wait, and the rest are counted as overflow. An abort, or an end of the
loop, starts every frame that waits, and the loop ends when its tasks have.

All of it is one JavaScript process, so what runs between two turns of the event loop is
one step here. A task is added before the microtask that calls `acceptFrame`; the frame
callback of the owner may abort the loop before the frame has its place.
-/

namespace Ahunter.Mx.Runner

/-- `{ maxConcurrentFrames, maxQueuedFrames }` -/
structure Options where
  maxConcurrentFrames : ℕ
  maxQueuedFrames : ℕ
deriving DecidableEq, Repr

/-- Where the main loop is; `listening` is between the registration of the route and its
removal. -/
inductive Phase
  | seeking
  | listening
  | backoff
  | draining
  | finished
deriving DecidableEq, Repr

/-- A call of `recordOverflow`, with what was in progress and what waited. -/
structure Overflow (F : Type) where
  frame : F
  inProgress : ℕ
  waiting : ℕ

structure Loop (F : Type) where
  phase : Phase
  aborted : Bool
  shutdownStarted : Bool
  /-- Tasks whose `acceptFrame` was not called yet, and those it was called for. -/
  launching : List F
  running : List F
  queued : List F
  idleWaiter : Bool
  idle : Bool
  /-- What was handed to `enqueueFrame` before the abort, and what became of it. -/
  handed : List F
  passed : List F
  overflowed : List (Overflow F)

namespace Loop

variable {F : Type} (options : Options) (loop : Loop F)

def start : Loop F := ⟨.seeking, false, false, [], [], [], false, false, [], [], []⟩

/-- `pending.size` -/
def pending : ℕ := loop.launching.length + loop.running.length

/-- `notifyIdle()` -/
def notifyIdle : Loop F :=
  if loop.pending ≠ 0 ∨ loop.queued ≠ [] then loop
  else if loop.idleWaiter then { loop with idleWaiter := false, idle := true }
  else loop

/-- `waitForIdle()` -/
def waitForIdle : Loop F :=
  if loop.pending = 0 ∧ loop.queued = [] then { loop with idle := true }
  else { loop with idleWaiter := true }

/-- `startFrame(frame)` -/
def startFrame (frame : F) : Loop F := { loop with launching := loop.launching ++ [frame] }

/-- The microtask of the oldest new task. -/
def acceptFrame : Loop F :=
  match loop.launching with
  | [] => loop
  | frame :: launching =>
      { loop with
        launching, running := loop.running ++ [frame], passed := loop.passed ++ [frame] }

/-- What a task does at its end, whether `acceptFrame` failed or not. -/
def settleFrame (index : ℕ) : Loop F :=
  let loop := { loop with running := loop.running.eraseIdx index }
  match loop.queued with
  | [] => loop.notifyIdle
  | next :: queued => { loop with queued }.startFrame next

/-- `beginShutdown()` -/
def beginShutdown : Loop F :=
  if loop.shutdownStarted then loop
  else
    loop.queued.foldl startFrame { loop with shutdownStarted := true, queued := [] }

def abort : Loop F :=
  if loop.aborted then loop else { loop with aborted := true }.beginShutdown

/-- `enqueueFrame(frame)`; `aborting` when the owner's `onFrame` aborts the signal. -/
def enqueueFrame (frame : F) (aborting : Bool) : Loop F :=
  if loop.aborted then loop
  else
    let loop := { loop with handed := loop.handed ++ [frame] }
    let loop := if aborting then loop.abort else loop
    if loop.pending < options.maxConcurrentFrames then loop.startFrame frame
    else if loop.queued.length < options.maxQueuedFrames then
      { loop with queued := loop.queued ++ [frame] }
    else
      { loop with
        overflowed := loop.overflowed ++ [⟨frame, loop.pending, loop.queued.length⟩] }

def leave : Loop F := { loop with phase := .draining }.beginShutdown.waitForIdle

end Loop

/-- One turn. -/
inductive Step {F : Type} (options : Options) : Loop F → Loop F → Prop
  | connect {loop : Loop F} (hphase : loop.phase = .seeking) (hactive : loop.aborted = false) :
      Step options loop { loop with phase := .listening }
  | lose {loop : Loop F} (hphase : loop.phase = .seeking ∨ loop.phase = .listening)
      (hactive : loop.aborted = false) :
      Step options loop { loop with phase := .backoff }
  | retry {loop : Loop F} (hphase : loop.phase = .backoff) (hactive : loop.aborted = false) :
      Step options loop { loop with phase := .seeking }
  | leave {loop : Loop F} (hphase : loop.phase ≠ .draining ∧ loop.phase ≠ .finished) :
      Step options loop loop.leave
  | finish {loop : Loop F} (hphase : loop.phase = .draining) (hidle : loop.idle = true) :
      Step options loop { loop with phase := .finished }
  | frame {loop : Loop F} (frame : F) (aborting : Bool) (hphase : loop.phase = .listening) :
      Step options loop (loop.enqueueFrame options frame aborting)
  | accept {loop : Loop F} : Step options loop loop.acceptFrame
  | settle {loop : Loop F} (index : ℕ) (hindex : index < loop.running.length) :
      Step options loop (loop.settleFrame index)
  | abort {loop : Loop F} : Step options loop loop.abort

end Ahunter.Mx.Runner
