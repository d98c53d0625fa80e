import Ahunter.Market.Adjustments
import Ahunter.Market.Engine

/-!
# The security window of a study

What a study of one security gets of the stored facts at its boundary: the
sessions since the last cold start, a bar or a suspension for each, and the
research prices. A row whose source or fetch is later than the boundary is not
there for it.
-/

namespace Ahunter.Market

open Ahunter.Lib
open Ahunter.Sim (Date Stamp)

/-- A row of `securities`, as far as the window reads it. -/
structure Listing where
  listDate : Option Date
  delistDate : Option Date
deriving DecidableEq

/-- A row of `trading_sessions`, as far as the window reads it. -/
structure SessionRow where
  contentHash : String
  fetchedAt : Stamp
deriving DecidableEq

structure Calendar where
  listings : Dict String Listing
  sessions : Dict Date SessionRow
deriving DecidableEq

/-- `source_at <= boundary and fetched_at <= boundary` -/
def seenBy (boundary sourceAt fetchedAt : Stamp) : Bool :=
  decide (sourceAt.instant ≤ boundary.instant ∧ fetchedAt.instant ≤ boundary.instant)

/-- `run_type = 'cold_start' AND status IN ('running', 'partial', 'complete')` -/
def RunRow.isBaseline (run : RunRow) : Bool :=
  decide (run.runType = .coldStart ∧
    (run.status = .running ∨ run.status = .partialRun ∨ run.status = .complete))

/-- The last baseline, `ORDER BY created_at DESC, run_id DESC LIMIT 1`. -/
def Control.baseline (c : Control) : Option RunRow :=
  (firstBy (fun e => OrderDual.toDual (toLex (isoKey e.2.createdAt, e.1)))
    (c.runs.entries.filter fun e => e.2.isBaseline)).map Prod.snd

/-- `_visible_sessions(connection, start, boundary)` -/
def visibleSessions (start : Date) (boundary : Stamp) (sessions : Dict Date SessionRow) :
    List (Date × SessionRow) :=
  sessions.entries.filter fun e =>
    decide (start ≤ e.1 ∧ e.1 ≤ marketDate boundary ∧
      e.2.fetchedAt.instant ≤ boundary.instant)

/-- `_visible_bars(connection, code, start, end, boundary)` -/
def visibleBars (code : String) (start finish : Date) (boundary : Stamp) (facts : Facts) :
    List (Fetched CanonicalDailyBar) :=
  (barsFor code start finish facts).filter fun b => seenBy boundary b.content.sourceAt b.fetchedAt

/-- `_visible_absences(connection, code, start, end, boundary)` -/
def visibleAbsences (code : String) (start finish : Date) (boundary : Stamp) (facts : Facts) :
    List (Fetched MarketAbsence) :=
  ((rowsBetween facts.absences code start finish).map Prod.snd).filter fun a =>
    seenBy boundary a.content.sourceAt a.fetchedAt

def seenFactors (code : String) (start finish : Date) (boundary : Stamp) (facts : Facts) :
    Dict Date (Fetched AdjustmentFactor) :=
  factorByDate (((rowsBetween facts.factors code start finish).map Prod.snd).filter fun f =>
    seenBy boundary f.content.sourceAt f.fetchedAt)

/-- `_visible_factors(connection, code, bars, boundary)`, for bars from `start`
to `finish` -/
def visibleFactors (code : String) (bars : List (Fetched CanonicalDailyBar))
    (start finish : Date) (boundary : Stamp) (facts : Facts) :
    Attempt (List (Fetched AdjustmentFactor)) := do
  let factors := seenFactors code start finish boundary facts
  let missing := (barDates bars).filter fun day => decide (factors.get? day = none)
  refuse (missing ≠ []) (valueError s!"研究价格序列缺少 {missing.length} 个复权因子")
  gather (fun b => need (factors.get? b.content.tradeDate) (dateKeyError b.content.tradeDate)) bars

/-- `max(stamps)`, which is the first of the latest -/
def latest : List Stamp → Option Stamp
  | [] => none
  | first :: rest =>
      some (rest.foldl (fun best s => if best.instant < s.instant then s else best) first)

/-- What a study gets. -/
structure SecurityWindow where
  rawBars : List (Fetched CanonicalDailyBar)
  series : ResearchPriceSeries
  sessions : List (Date × SessionRow)
  latestSession : Date
  latestFetch : Stamp
deriving DecidableEq

/-- The window once its sessions are known, `first` to `last`. -/
def readWindow (code : String) (expected : List Date) (first last : Date) (boundary : Stamp)
    (facts : Facts) :
    Attempt (List (Fetched CanonicalDailyBar) × List (Fetched AdjustmentFactor) ×
      ResearchPriceSeries) := do
  let rawBars := visibleBars code first last boundary facts
  let absenceDates := (visibleAbsences code first last boundary facts).map
    fun a => a.content.tradeDate
  refuse (∃ day ∈ barDates rawBars, day ∈ absenceDates) (valueError "本地日线与停牌事实冲突")
  let missing := expected.filter fun day =>
    decide (day ∉ barDates rawBars ∧ day ∉ absenceDates)
  refuse (missing ≠ []) (valueError s!"单证券交易日覆盖不完整，缺少 {missing.length} 天")
  let start ← need (barDates rawBars).head? (valueError "该证券只有停牌事实，无法形成研究价格序列")
  let finish ← need (barDates rawBars).getLast?
    (valueError "该证券只有停牌事实，无法形成研究价格序列")
  let factors ← visibleFactors code rawBars start finish boundary facts
  let series ← deriveForwardAdjustedPrices rawBars factors
  pure (rawBars, factors, series)

/-- `item[0] <= delist_date`, where there is one -/
def Listing.holds (listing : Listing) (day : Date) : Bool :=
  listing.delistDate.all fun last => decide (day ≤ last)

/-- `_read_complete_security_window(request)` -/
def readCompleteSecurityWindow (calendar : Calendar) (code : String) (boundary : Stamp)
    (s : Store) : Attempt SecurityWindow := do
  let baseline ← need s.control.baseline (valueError "没有可用于研究的 Market Daily 冷启动基线")
  let listing ← need (calendar.listings.get? code) (valueError "证券主数据或上市日期不可用")
  let listDate ← need listing.listDate (valueError "证券主数据或上市日期不可用")
  let seen := visibleSessions (max baseline.startDate listDate) boundary calendar.sessions
  let target ← need seen.getLast? (valueError "没有对研究边界可见的已证明交易日")
  let sessions := seen.filter fun e => listing.holds e.1
  let first ← need sessions.head? (valueError "该证券在研究窗口内没有应覆盖交易日")
  let last ← need sessions.getLast? (valueError "该证券在研究窗口内没有应覆盖交易日")
  let (rawBars, factors, series) ← readWindow code (sessions.map Prod.fst) first.1 last.1
    boundary s.facts
  let latestFetch ← need (latest (rawBars.map Fetched.fetchedAt
    ++ factors.map Fetched.fetchedAt ++ sessions.map fun e => e.2.fetchedAt))
    (valueError "max() iterable argument is empty")
  pure ⟨rawBars, series, sessions, target.1, latestFetch⟩

end Ahunter.Market
