import Ahunter.Lib.Attempt

/-!
# The tool channel

A candidate process asks for one tool call at a time. What it writes reaches the channel
in chunks, a line is one request, and the answer goes back as one line. The host takes
requests and gives answers, the monitor of the process brings chunks in and carries
responses out.

JSON is left to `loads` and `dumps`; a failure is the reason the channel keeps.
-/

namespace Ahunter.Channel

open Ahunter.Lib

variable {R V : Type}

/-- `ChannelLimits` -/
structure ChannelLimits where
  frameBytes : ℕ
  responseBytes : ℕ
  totalResponseBytes : ℕ
  maxRequests : ℕ
  positive : 0 < frameBytes ∧ 0 < responseBytes ∧ 0 < totalResponseBytes ∧ 0 < maxRequests

structure JsonLines (R V : Type) where
  loads : List UInt8 → Option R
  dumps : V → Option (List UInt8)

def newline : UInt8 := 10

/-- `ToolChannel` -/
structure ToolChannel (R : Type) where
  buffer : List UInt8
  request : Option R
  response : Option (List UInt8)
  outstanding : Bool
  count : ℕ
  sent : ℕ
  failure : Option String

namespace ToolChannel

/-- `ToolChannel(limits)` -/
def new : ToolChannel R := ⟨[], none, none, false, 0, 0, none⟩

def failed (channel : ToolChannel R) : Bool := channel.failure.any fun reason => reason ≠ ""

def fail (channel : ToolChannel R) (reason : String) : ToolChannel R :=
  { channel with failure := some reason }

variable (limits : ChannelLimits) (json : JsonLines R V) (channel : ToolChannel R)

def frame (line rest : List UInt8) : ToolChannel R :=
  let channel := { channel with buffer := [], count := channel.count + 1 }
  if rest ≠ [] then channel.fail "request_pipelining"
  else if limits.maxRequests < channel.count then channel.fail "request_limit"
  else match json.loads line with
    | none => channel.fail "invalid_frame"
    | some value => { channel with request := some value, outstanding := true }

/-- `receive(chunk)` -/
def receive (chunk : List UInt8) : ToolChannel R :=
  if channel.failed then channel
  else if channel.outstanding then channel.fail "request_pipelining"
  else
    let buffer := channel.buffer ++ chunk
    if limits.frameBytes < buffer.length then
      { channel with buffer := [], failure := some "frame_limit" }
    else if newline ∉ buffer then { channel with buffer := buffer }
    else
      channel.frame limits json (buffer.takeWhile (· ≠ newline))
        (buffer.dropWhile (· ≠ newline)).tail

/-- `request()` -/
def takeRequest : Option R × ToolChannel R :=
  (channel.request, { channel with request := none })

/-- `answer(response)` -/
def answer (response : V) : Except String (ToolChannel R) := do
  let text ← need (json.dumps response) "Out of range float values are not JSON compliant"
  let data := text ++ [newline]
  if channel.failed then pure channel
  else do
    refuse (channel.outstanding = false ∨ channel.response ≠ none) "no outstanding channel request"
    if limits.responseBytes < data.length ∨
        limits.totalResponseBytes < channel.sent + data.length then
      pure (channel.fail "response_limit")
    else pure { channel with sent := channel.sent + data.length, response := some data }

/-- `response()` -/
def takeResponse : Option (List UInt8) × ToolChannel R :=
  (channel.response, { channel with response := none })

/-- `response_sent()` -/
def responseSent : ToolChannel R := { channel with outstanding := false }

/-- `eof()` -/
def eof : ToolChannel R :=
  if channel.buffer ≠ [] ∧ channel.failed = false then channel.fail "incomplete_frame" else channel

/-- `abort(reason)` -/
def abort (reason : String) : ToolChannel R :=
  { channel with
    failure := if channel.failed then channel.failure else some reason
    request := none, response := none, buffer := [] }

end ToolChannel

/-! ## Calls -/

inductive Call (V : Type)
  | receive (chunk : List UInt8)
  | request
  | answer (response : V)
  | response
  | responseSent
  | eof
  | abort (reason : String)

/-- What the calls did; requests are numbered as they are accepted. -/
inductive Entry (R : Type)
  | accepted (number : ℕ) (line : List UInt8) (value : R)
  | delivered (number : ℕ) (value : R)
  | answered (number : ℕ) (data : List UInt8)
  | taken (number : ℕ) (data : List UInt8)
  | marked (number : ℕ)

/-- A channel with the bytes that came in and what its calls did, the newest first. -/
structure Session (R : Type) where
  channel : ToolChannel R
  stream : List UInt8
  log : List (Entry R)

def accepted : List (Entry R) → ℕ
  | [] => 0
  | .accepted number _ _ :: _ => number
  | _ :: log => accepted log

def lastAnswered : List (Entry R) → ℕ
  | [] => 0
  | .answered number _ :: _ => number
  | _ :: log => lastAnswered log

def delivered : List (Entry R) → List R
  | [] => []
  | .delivered _ value :: log => delivered log ++ [value]
  | _ :: log => delivered log

namespace Session

def new : Session R := ⟨.new, [], []⟩

variable (limits : ChannelLimits) (json : JsonLines R V) (session : Session R)

def number : ℕ := accepted session.log

def apply : Call V → Session R
  | .receive chunk =>
      let channel := session.channel.receive limits json chunk
      { channel, stream := session.stream ++ chunk
        log :=
          match session.channel.outstanding, channel.outstanding, channel.request with
          | false, true, some value =>
              .accepted (session.number + 1)
                ((session.channel.buffer ++ chunk).takeWhile (· ≠ newline)) value :: session.log
          | _, _, _ => session.log }
  | .request =>
      let (request, channel) := session.channel.takeRequest
      { session with
        channel
        log := match request with
          | none => session.log
          | some value => .delivered session.number value :: session.log }
  | .answer response =>
      match session.channel.answer limits json response with
      | .error _ => session
      | .ok channel =>
          { session with
            channel
            log := match session.channel.response, channel.response with
              | none, some data => .answered session.number data :: session.log
              | _, _ => session.log }
  | .response =>
      let (response, channel) := session.channel.takeResponse
      { session with
        channel
        log := match response with
          | none => session.log
          | some data => .taken (lastAnswered session.log) data :: session.log }
  | .responseSent =>
      { session with
        channel := session.channel.responseSent
        log := if session.channel.outstanding then .marked session.number :: session.log
          else session.log }
  | .eof => { session with channel := session.channel.eof }
  | .abort reason => { session with channel := session.channel.abort reason }

end Session

end Ahunter.Channel
