import Ahunter.Market.Repository

/-!
# Observed sessions

The trading days that have been seen. A day is stored once two sources have
reported the same days for a window around it, and never again: there is no
calendar to compare with, and what no window has covered is not there.

The receipt of an observation, which nothing here reads, is left out.
-/

namespace Ahunter.Market

open Ahunter.Lib
open Ahunter.Sim (Clock Date Stamp civil)

def sessionError (message : String) : MarketError := ⟨.other, message⟩

/-- A number with zeros in front. -/
def padded (width : ℕ) (n : ℤ) : String :=
  "".pushn '0' (width - (toString n).length) ++ toString n

/-- `day.isoformat()` -/
def isoDate (day : Date) : String :=
  let (y, m, d) := civil day
  s!"{padded 4 y}-{padded 2 m}-{padded 2 d}"

/-! ## Rows -/

/-- `ObservedTradingSession`, without its hash -/
@[ext] structure ObservedTradingSession where
  tradeDate : Date
  primarySource : String
  fallbackSource : String
  primaryObservedAt : Stamp
  fallbackObservedAt : Stamp
  fetchedAt : Stamp
  primaryText : IsText primarySource
  fallbackText : IsText fallbackSource
  distinct : primarySource ≠ fallbackSource
  observed : tradeDate ≤ marketDate primaryObservedAt ∧ tradeDate ≤ marketDate fallbackObservedAt

instance : DecidableEq ObservedTradingSession := fun _ _ => decidable_of_iff _ ObservedTradingSession.ext_iff.symm

abbrev Sessions := Dict Date ObservedTradingSession

/-- `upsert_session(session)` -/
def upsertSession (session : ObservedTradingSession) (t : Sessions) :
    Attempt (Outcome × Sessions) :=
  match t.get? session.tradeDate with
  | some existing => do
      refuse (¬ (existing.primarySource = session.primarySource ∧
          existing.fallbackSource = session.fallbackSource))
        ⟨.other, s!"{isoDate session.tradeDate} 的交易日来源冲突"⟩
      pure (.unchanged, t)
  | none => pure (.inserted, t.set session.tradeDate session)

/-- `sessions_for(start, end)` -/
def sessionsFor (start finish : Date) (t : Sessions) : Attempt (List Date) := do
  refuse (finish < start) (valueError "start cannot be after end")
  pure (t.keys.filter fun day => decide (start ≤ day ∧ day ≤ finish))

/-- `latest_session_on_or_before(end)` -/
def latestSessionOnOrBefore (finish : Date) (t : Sessions) : Option Date :=
  (t.keys.filter fun day => decide (day ≤ finish)).getLast?

/-! ## Observing -/

/-- The two session sources of a service. -/
structure Providers where
  primarySource : String
  fallbackSource : String
  primary : Date → Date → Attempt (List Date)
  fallback : Date → Date → Attempt (List Date)
  primaryText : IsText primarySource
  fallbackText : IsText fallbackSource
  distinct : primarySource ≠ fallbackSource

/-- `time(21, 0)` -/
def readyAt : Clock := 75600000000

/-- `_observe(provider, start, end)` -/
def observe (source : String) (answer : Attempt (List Date)) : Attempt (List Date) :=
  match answer with
  | .ok days => .ok days
  | .error e =>
      if e.kind = .provider then
        .error (sessionError s!"{source} 交易日来源不可用：{e.message}")
      else .error e

/-- `_validate_dates(values, start, end, as_of, source)` -/
def validateDates (days : List Date) (start finish : Date) (asOf : Stamp) (source : String) :
    Attempt (List Date) := do
  refuse (¬ days.Pairwise (· < ·)) (sessionError s!"{source} 的交易日必须升序且唯一")
  refuse (∃ day ∈ days, day < start ∨ finish < day ∨ marketDate asOf < day)
    (sessionError s!"{source} 的交易日超出允许范围")
  pure days

def observeBoth (p : Providers) (start finish : Date) (asOf : Stamp) : Attempt (List Date) := do
  refuse (finish < start) (sessionError "开始日期不能晚于结束日期")
  refuse (shanghai.time asOf.instant < readyAt) (sessionError "交易日观察只能在 21:00 后执行")
  let primary ← observe p.primarySource (p.primary start finish)
  let primary ← validateDates primary start finish asOf p.primarySource
  let fallback ← observe p.fallbackSource (p.fallback start finish)
  let fallback ← validateDates fallback start finish asOf p.fallbackSource
  refuse (primary ≠ fallback) (sessionError "主备行情源观察到的交易日不一致")
  pure primary

def observedSession (p : Providers) (asOf : Stamp) (day : Date) :
    Attempt ObservedTradingSession :=
  let localAsOf : Stamp := ⟨asOf.instant, shanghai⟩
  if h : day ≤ marketDate localAsOf then
    pure ⟨day, p.primarySource, p.fallbackSource, localAsOf, localAsOf, localAsOf,
      p.primaryText, p.fallbackText, p.distinct, h, h⟩
  else .error (valueError "session cannot be after its observations")

/-- The loop of `refresh`, with a transaction for each day. -/
def storeSessions (p : Providers) (asOf : Stamp) : List Date → Sessions → Attempt Unit × Sessions
  | [], t => (pure (), t)
  | day :: days, t =>
      match observedSession p asOf day >>= fun session => upsertSession session t with
      | .ok r => storeSessions p asOf days r.2
      | .error e => (.error e, t)

/-- `refresh(start, end, as_of)` -/
def refresh (p : Providers) (start finish : Date) (asOf : Stamp) (t : Sessions) :
    Attempt Unit × Sessions :=
  match observeBoth p start finish asOf with
  | .ok days => storeSessions p asOf days t
  | .error e => (.error e, t)

/-- `latest_completed_session(as_of)` -/
def latestCompletedSession (asOf : Stamp) (t : Sessions) : Attempt Date :=
  let cutoff := if readyAt ≤ shanghai.time asOf.instant then marketDate asOf
    else marketDate asOf - 1
  need (latestSessionOnOrBefore cutoff t) (sessionError "本地没有已证明的交易日")

end Ahunter.Market
