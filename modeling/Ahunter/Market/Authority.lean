import Ahunter.Market.Repository
import Mathlib.Data.List.Dedup
import Mathlib.Data.List.MinMax

/-!
# The session authority

A capture of the whole market is dated by an authority for sessions: the stored
table of completed sessions, and where that cannot tell, a live probe of the
current day. Outside the hours of a session the rows of a capture must all be of
the latest completed session.

An error is the message of a `ProductUnavailable`, and a date stands for its ISO
text. Of a capture the rows are modelled as far as their dates go: what else is
checked can only refuse it or leave rows out.
-/

namespace Ahunter.Market

open Ahunter.Lib
open Ahunter.Sim (Clock Date Instant)

/-! ## Clocks -/

/-- `day.weekday()`; Monday is 0. -/
def weekday (day : Date) : ℤ := (day + 3) % 7

/-- `time(15, 0)` -/
def closeAt : Clock := 54000000000

/-- `_session_hours(local)` -/
def sessionHours (clock : Clock) : Bool :=
  decide (34200000000 ≤ clock ∧ clock ≤ 41400000000 ∨ 46800000000 ≤ clock ∧ clock < closeAt)

inductive SessionState
  | opened
  | completed
  | closed
  | unknown
deriving DecidableEq, Repr

inductive CurrentState
  | opened
  | completed
  | unknown
deriving DecidableEq, Repr

def CurrentState.state : CurrentState → SessionState
  | .opened => .opened
  | .completed => .completed
  | .unknown => .unknown

/-- `TradingSessionAuthority` -/
structure TradingSessionAuthority where
  sessionState : Instant → Except String SessionState
  latestCompletedSession : Instant → Except String Date

/-! ## The stored table -/

def authorityUnavailable : String := "whole-market trading session authority is unavailable"
def completedUnavailable : String := "whole-market completed session authority is unavailable"

/-- `SqliteTradingSessionAuthority`: the days in `trading_sessions`, where it can be
read. -/
structure SqliteTradingSessionAuthority where
  tradingSessions : Option (List Date)

/-- The day that has to be over: today from the close on. -/
def cutoff (asOf : Instant) : Date :=
  if closeAt ≤ shanghai.time asOf then shanghai.date asOf else shanghai.date asOf - 1

namespace SqliteTradingSessionAuthority

variable (authority : SqliteTradingSessionAuthority) (asOf : Instant)

/-- `session_state(as_of)` -/
def sessionState : Except String SessionState :=
  if 5 ≤ weekday (shanghai.date asOf) then pure .closed
  else do
    let sessions ← need authority.tradingSessions authorityUnavailable
    pure (if shanghai.date asOf ∈ sessions then .opened
      else if ∃ day ∈ sessions, shanghai.date asOf < day then .closed
      else .unknown)

/-- `latest_completed_session(as_of)` -/
def latestCompletedSession : Except String Date := do
  let sessions ← need authority.tradingSessions authorityUnavailable
  refuse (cutoff asOf ∉ sessions ∧ weekday (cutoff asOf) < 5 ∧ ¬ ∃ day ∈ sessions, cutoff asOf < day)
    completedUnavailable
  need (sessions.filter fun day => decide (day ≤ cutoff asOf)).max? completedUnavailable

end SqliteTradingSessionAuthority

/-! ## With a probe -/

/-- `HybridTradingSessionAuthority` -/
structure HybridTradingSessionAuthority where
  completedSessions : SqliteTradingSessionAuthority
  currentSession : Instant → CurrentState

namespace HybridTradingSessionAuthority

variable (authority : HybridTradingSessionAuthority) (asOf : Instant)

/-- `session_state(as_of)` -/
def sessionState : Except String SessionState := do
  let persisted ← authority.completedSessions.sessionState asOf
  pure (if persisted ≠ .unknown then persisted else (authority.currentSession asOf).state)

/-- `latest_completed_session(as_of)` -/
def latestCompletedSession : Except String Date :=
  match authority.completedSessions.latestCompletedSession asOf with
  | .ok day => .ok day
  | .error e =>
      if authority.currentSession asOf = .completed then .ok (shanghai.date asOf) else .error e

def asAuthority : TradingSessionAuthority :=
  ⟨authority.sessionState, authority.latestCompletedSession⟩

end HybridTradingSessionAuthority

/-! ## Captures -/

structure QuoteRow where
  code : String
  sessionDate : Option Date
deriving DecidableEq, Repr

structure CapturedPage where
  rows : List QuoteRow
  observedAt : Instant
  fetchedAt : Instant

structure IntradayProvider where
  sessionAuthority : Option TradingSessionAuthority
  intradayFreshness : ℤ
  maxWindow : ℤ

/-- `_latest_completed_session(local)`: a weekend day goes back to its Friday. -/
def latestWeekday (asOf : Instant) : Date :=
  let today := shanghai.date asOf
  let candidate :=
    if 5 ≤ weekday today ∨ shanghai.time asOf < closeAt then today - 1 else today
  if 5 ≤ weekday candidate then candidate - (weekday candidate - 4) else candidate

/-- `_capture_session_date(session_authority, captured_at)` -/
def captureSessionDate (authority : Option TradingSessionAuthority) (capturedAt : Instant) :
    Except String (Option Date) :=
  match authority with
  | none => pure none
  | some authority => do
      match ← authority.sessionState capturedAt with
      | .opened =>
          if sessionHours (shanghai.time capturedAt) then pure (some (shanghai.date capturedAt))
          else some <$> authority.latestCompletedSession capturedAt
      | .completed => pure (some (shanghai.date capturedAt))
      | .closed => some <$> authority.latestCompletedSession capturedAt
      | .unknown =>
          if shanghai.time capturedAt < 34200000000 then
            some <$> authority.latestCompletedSession capturedAt
          else pure none

/-- `_attach_session_date(rows, session_date)` -/
def attachSessionDate (sessionDate : Option Date) (rows : List QuoteRow) : List QuoteRow :=
  rows.map fun row => { row with sessionDate := row.sessionDate.orElse fun _ => sessionDate }

def inSession (authority : Option TradingSessionAuthority) (boundary : Instant) :
    Except String Bool :=
  let hours := sessionHours (shanghai.time boundary)
  match authority with
  | none => pure (decide (weekday (shanghai.date boundary) < 5) && hours)
  | some authority => do
      let state ← authority.sessionState boundary
      refuse (hours = true ∧ state = .unknown) authorityUnavailable
      pure (hours && decide (state = .opened))

/-- `_validate_session_freshness(boundary, observed_at, rows=…, …)` -/
def validateSessionFreshness (provider : IntradayProvider) (boundary observedAt : Instant)
    (rows : List QuoteRow) : Except String Unit := do
  let dates := (rows.filterMap QuoteRow.sessionDate).dedup
  if ← inSession provider.sessionAuthority boundary then
    refuse (boundary + provider.maxWindow < observedAt ∨
        provider.intradayFreshness < boundary - observedAt)
      "whole-market intraday snapshot is stale"
    refuse (dates ≠ [] ∧ dates ≠ [shanghai.date boundary])
      "whole-market intraday snapshot session is invalid"
  else
    match dates with
    | [sessionDate] =>
        let expected ← match provider.sessionAuthority with
          | none => pure (latestWeekday boundary)
          | some authority => authority.latestCompletedSession boundary
        refuse (sessionDate ≠ expected ∨ shanghai.date boundary < shanghai.date observedAt)
          "whole-market snapshot session is invalid"
    | _ => .error "whole-market completed session proof is invalid"

/-- `fetch(request)`: the rows that are sealed, those of the expected securities. -/
def IntradayProvider.fetch (provider : IntradayProvider) (expected : List String)
    (boundary : Instant) (pages : List CapturedPage) : Except String (List QuoteRow) := do
  let attached ← gather (fun page => do
    let sessionDate ← captureSessionDate provider.sessionAuthority page.fetchedAt
    pure (attachSessionDate sessionDate page.rows)) pages
  let rows := attached.flatten.filter fun row => row.code ∈ expected
  let observedAt ← need (pages.map CapturedPage.observedAt).max?
    "whole-market source pages are incomplete"
  validateSessionFreshness provider boundary observedAt rows
  pure rows

end Ahunter.Market
