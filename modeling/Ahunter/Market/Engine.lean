import Ahunter.Lib.Process
import Ahunter.Market.Repository
import Mathlib.Data.Finset.Sort

/-!
# The ingestion engine

A run of the engine works through the securities of one run of the control
plane. For each it claims the item, asks the repository which sessions are
covered, fetches what is missing, commits it, sees that every stored bar has
its factor, and marks the item. Every one of these is a call with its own
transaction, so that engines and services work side by side and see each
other's work between any two calls.

The sources of bars, of proofs of absence and of factors, the clock and the
hooks are not the engine's: a call to one of them is answered by anything, or
raises.
-/

namespace Ahunter.Market

open Ahunter.Lib
open Ahunter.Sim (Date Stamp)

def ingestionError (message : String) : MarketError := ⟨.ingestion, message⟩

/-! ## Calls of the engine -/

/-- `ProviderChainResult`, as far as the engine reads it. -/
structure ChainResult where
  selectedSource : String
  bars : List (Fetched CanonicalDailyBar)

inductive EngineCall
  | run (runId : String)
  | startRun (runId : String) (now : Stamp)
  | runSecurities (runId : String)
  | item (runId code : String)
  | claimItem (runId code owner : String) (now : Stamp) (leaseSeconds : ℤ)
  | renewItemClaim (runId code owner : String) (now : Stamp) (leaseSeconds : ℤ)
  | markItem (runId code : String) (status : ItemStatus) (now : Stamp) (source : Option String)
  | finalizeRun (runId : String) (now : Stamp)
  | coveredDates (code : String) (start finish : Date)
  | barsFor (code : String) (start finish : Date)
  | factorDates (code : String) (start finish : Date)
  | commitSecurityObservations (bars : List (Fetched CanonicalDailyBar))
      (factors : List (Fetched AdjustmentFactor)) (absences : List (Fetched MarketAbsence))
  | fetchDailyBars (code : String) (start finish : Date)
  | absencesFor (code : String) (sessions : List Date) (now : Stamp)
  | fetchAdjustmentFactors (code : String) (start finish : Date)
  | clock
  | heartbeat (owner : String)
  | afterCommit (code : String)

def EngineCall.Answer : EngineCall → Type
  | .run _ => RunRow
  | .startRun _ _ => RunRow
  | .runSecurities _ => List RunSecurity
  | .item _ _ => ItemRow
  | .claimItem _ _ _ _ _ => Bool
  | .renewItemClaim _ _ _ _ _ => Bool
  | .markItem _ _ _ _ _ => Unit
  | .finalizeRun _ _ => Unit
  | .coveredDates _ _ _ => List Date
  | .barsFor _ _ _ => List (Fetched CanonicalDailyBar)
  | .factorDates _ _ _ => List Date
  | .commitSecurityObservations _ _ _ => SecurityCommitResult
  | .fetchDailyBars _ _ _ => ChainResult
  | .absencesFor _ _ _ => List (Fetched MarketAbsence)
  | .fetchAdjustmentFactors _ _ _ => List (Fetched AdjustmentFactor)
  | .clock => Option Stamp
  | .heartbeat _ => Unit
  | .afterCommit _ => Unit

abbrev Engine := Proc EngineCall EngineCall.Answer MarketError

namespace Ask

/-! ### Each call, as a program that only makes it -/

def run (runId : String) : Engine RunRow := Proc.ask (EngineCall.run runId)

def startRun (runId : String) (now : Stamp) : Engine RunRow :=
  Proc.ask (EngineCall.startRun runId now)

def runSecurities (runId : String) : Engine (List RunSecurity) :=
  Proc.ask (EngineCall.runSecurities runId)

def item (runId code : String) : Engine ItemRow := Proc.ask (EngineCall.item runId code)

def claimItem (runId code owner : String) (now : Stamp) (leaseSeconds : ℤ) : Engine Bool :=
  Proc.ask (EngineCall.claimItem runId code owner now leaseSeconds)

def renewItemClaim (runId code owner : String) (now : Stamp) (leaseSeconds : ℤ) :
    Engine Bool :=
  Proc.ask (EngineCall.renewItemClaim runId code owner now leaseSeconds)

def markItem (runId code : String) (status : ItemStatus) (now : Stamp)
    (source : Option String) : Engine Unit :=
  Proc.ask (EngineCall.markItem runId code status now source)

def finalizeRun (runId : String) (now : Stamp) : Engine Unit :=
  Proc.ask (EngineCall.finalizeRun runId now)

def coveredDates (code : String) (start finish : Date) : Engine (List Date) :=
  Proc.ask (EngineCall.coveredDates code start finish)

def barsFor (code : String) (start finish : Date) : Engine (List (Fetched CanonicalDailyBar)) :=
  Proc.ask (EngineCall.barsFor code start finish)

def factorDates (code : String) (start finish : Date) : Engine (List Date) :=
  Proc.ask (EngineCall.factorDates code start finish)

def commitSecurityObservations (bars : List (Fetched CanonicalDailyBar))
    (factors : List (Fetched AdjustmentFactor)) (absences : List (Fetched MarketAbsence)) :
    Engine SecurityCommitResult :=
  Proc.ask (EngineCall.commitSecurityObservations bars factors absences)

def fetchDailyBars (code : String) (start finish : Date) : Engine ChainResult :=
  Proc.ask (EngineCall.fetchDailyBars code start finish)

def absencesFor (code : String) (sessions : List Date) (now : Stamp) :
    Engine (List (Fetched MarketAbsence)) :=
  Proc.ask (EngineCall.absencesFor code sessions now)

def fetchAdjustmentFactors (code : String) (start finish : Date) :
    Engine (List (Fetched AdjustmentFactor)) :=
  Proc.ask (EngineCall.fetchAdjustmentFactors code start finish)

def clock : Engine (Option Stamp) := Proc.ask EngineCall.clock

def heartbeat (owner : String) : Engine Unit := Proc.ask (EngineCall.heartbeat owner)

def afterCommit (code : String) : Engine Unit := Proc.ask (EngineCall.afterCommit code)

end Ask

structure EngineConfig where
  hasClock : Bool
  hasHeartbeat : Bool
  hasAfterCommit : Bool
  itemLeaseSeconds : ℤ
  leasePositive : 0 < itemLeaseSeconds

/-! ## Dates -/

/-- `tuple(sorted(set))` -/
def sortedDates (dates : List Date) : List Date := dates.toFinset.sort (· ≤ ·)

/-- `_validate_sessions(sessions, start, end)` -/
def validateSessions (sessions : List Date) (start finish : Date) : Attempt (List Date) := do
  refuse (sessions = []) (ingestionError "交易日集合不能为空")
  refuse (¬ sessions.Pairwise (· < ·)) (ingestionError "交易日集合必须升序且唯一")
  refuse (¬ ∀ day ∈ sessions, start ≤ day ∧ day ≤ finish)
    (ingestionError "交易日集合超出运行区间")
  pure sessions

/-- `min(end, security.delist_date) if security.delist_date else end` -/
def RunSecurity.lastDay (security : RunSecurity) (finish : Date) : Date :=
  match security.delistDate with
  | some day => min finish day
  | none => finish

/-- `_expected_sessions(security, sessions, run_start, run_end)` -/
def expectedSessions (security : RunSecurity) (sessions : List Date) (start finish : Date) :
    List Date :=
  sessions.filter fun day =>
    decide (max start security.listDate ≤ day ∧ day ≤ security.lastDay finish)

/-! ## Checks of what the sources return -/

/-- `sorted(facts, key=lambda fact: fact.trade_date)` -/
def sortedFacts {α : Type} (day : α → Date) (facts : List (Fetched α)) : List (Fetched α) :=
  facts.mergeSort fun a b => decide (day a.content ≤ day b.content)

/-- The loop of `_select_expected_bars`, which collects what it has seen. -/
def checkBar (code : String) (expected : List Date) (seen : List Date)
    (bar : Fetched CanonicalDailyBar) : Attempt (List Date) := do
  refuse (bar.content.code ≠ code) (ingestionError "行情源返回其他证券日线")
  refuse (bar.content.tradeDate ∉ expected) (ingestionError "行情源返回非交易日日线")
  refuse (bar.content.tradeDate ∈ seen) (ingestionError "行情源返回重复日线")
  pure (bar.content.tradeDate :: seen)

/-- `_select_expected_bars(bars, code, expected, missing)` -/
def selectExpectedBars (bars : List (Fetched CanonicalDailyBar)) (code : String)
    (expected missing : List Date) : Attempt (List (Fetched CanonicalDailyBar)) := do
  let _ ← walk (checkBar code expected) [] bars
  pure (sortedFacts CanonicalDailyBar.tradeDate
    (bars.filter fun b => decide (b.content.tradeDate ∈ missing)))

/-- The loop of `_validate_absences`. -/
def checkAbsence (code : String) (unresolved : List Date) (seen : List Date)
    (absence : Fetched MarketAbsence) : Attempt (List Date) := do
  refuse (absence.content.code ≠ code ∨ absence.content.tradeDate ∉ unresolved)
    (ingestionError "停牌证据超出未覆盖交易日")
  refuse (absence.content.tradeDate ∈ seen) (ingestionError "停牌证据日期重复")
  pure (absence.content.tradeDate :: seen)

/-- `_validate_absences(absences, code, unresolved)` -/
def validateAbsences (absences : List (Fetched MarketAbsence)) (code : String)
    (unresolved : List Date) : Attempt (List (Fetched MarketAbsence)) := do
  let _ ← walk (checkAbsence code unresolved) [] absences
  pure (sortedFacts MarketAbsence.tradeDate absences)

/-- `{factor.trade_date: factor for factor in received if factor.code == code}` -/
def factorsByDate (code : String) (received : List (Fetched AdjustmentFactor)) :
    Dict Date (Fetched AdjustmentFactor) :=
  Dict.ofList ((received.filter fun f => decide (f.content.code = code)).map
    fun f => (f.content.tradeDate, f))

/-- What `_fetch_factors` makes of what it received. -/
def matchFactors (code : String) (bars : List (Fetched CanonicalDailyBar))
    (received : List (Fetched AdjustmentFactor)) : Attempt (List (Fetched AdjustmentFactor)) := do
  let byDate := factorsByDate code received
  let dates := bars.map fun b => b.content.tradeDate
  refuse (¬ ((∀ day ∈ byDate.keys, day ∈ dates) ∧ ∀ day ∈ dates, day ∈ byDate.keys) ∨
      byDate.entries.length ≠ received.length)
    (ingestionError "复权来源没有完整覆盖已接收日线")
  gather (fun b => need (byDate.get? b.content.tradeDate)
    (keyError b.content.code b.content.tradeDate)) bars

/-! ## The pieces of an ingestion -/

section Pieces

variable (cfg : EngineConfig)

/-- `_work_now(fallback)` -/
def workNow (fallback : Stamp) : Engine Stamp :=
  if cfg.hasClock then do
    let moment ← Ask.clock
    Proc.lift (need moment (ingestionError "摄取时钟必须带时区"))
  else pure fallback

/-- `self._heartbeat(owner_id)`, where there is one -/
def beat (owner : String) : Engine Unit :=
  if cfg.hasHeartbeat then Ask.heartbeat owner else pure ()

/-- `self._after_commit(security.code)`, where there is one -/
def notify (code : String) : Engine Unit :=
  if cfg.hasAfterCommit then Ask.afterCommit code else pure ()

variable (runId code owner : String) (now : Stamp)

/-- `_renew_work_lease(run_id, code, owner_id, fallback)` -/
def renewWorkLease : Engine Unit := do
  let moment ← workNow cfg now
  beat cfg owner
  let renewed ← Ask.renewItemClaim runId code owner moment cfg.itemLeaseSeconds
  Proc.lift (refuse (renewed = false) (ingestionError "逐证券任务租约已失效"))

/-- `mark_item(run_id, code, status, self._work_now(now), selected_source=…)` -/
def mark (status : ItemStatus) (source : Option String) : Engine Unit := do
  let moment ← workNow cfg now
  Ask.markItem runId code status moment source

/-- `_fetch_factors(code, bars, now)` -/
def fetchFactors (bars : List (Fetched CanonicalDailyBar)) :
    Engine (List (Fetched AdjustmentFactor)) :=
  match bars.head?, bars.getLast? with
  | some first, some last => do
      let received ← Ask.fetchAdjustmentFactors code first.content.tradeDate
        last.content.tradeDate
      Proc.lift (matchFactors code bars received)
  | _, _ => pure []

def factorsOn (received : List (Fetched AdjustmentFactor)) (dates : List Date) :
    Attempt (List (Fetched AdjustmentFactor)) :=
  gather (fun day => need ((factorsByDate code received).get? day)
    (ingestionError "复权来源没有完整覆盖已有日线")) dates

/-- `_ensure_factor_coverage(run_id, code, expected, owner_id, now)` between
the first and the last expected date; what it returns is the reason it gives -/
def ensureFactorCoverage (first last : Date) : Engine (Option MarketError) := do
  let rawBars ← Ask.barsFor code first last
  if rawBars = [] then pure none
  else do
    let existing ← Ask.factorDates code first last
    let missing := sortedDates ((rawBars.map fun b => b.content.tradeDate).filter
      fun day => decide (day ∉ existing))
    match missing.head?, missing.getLast? with
    | some start, some finish => do
        let received ← Proc.attempt do
          renewWorkLease cfg runId code owner now
          Ask.fetchAdjustmentFactors code start finish
        match received >>= fun received => factorsOn code received missing with
        | .error e => pure (some e)
        | .ok factors => do
            let _ ← Ask.commitSecurityObservations [] factors []
            pure none
    | _, _ => pure none

end Pieces

/-! ## One security -/

/-- `SecurityIngestionResult`, without its message -/
structure SecurityIngestionResult where
  code : String
  status : ItemStatus
  expectedSessions : ℕ
  coveredSessions : ℕ
  selectedSource : Option String
deriving DecidableEq, Repr

inductive Fetching
  | conflicted (source : String)
  | unresolved (source : String) (count : ℕ)
  | complete (source : Option String)
deriving DecidableEq, Repr

section Ingestion

variable (cfg : EngineConfig) (runId owner : String) (now : Stamp)

/-- The part of `ingest_security_interval` under `if missing:`, up to the
marks it makes. -/
def fetchMissing (code : String) (expected missing : List Date) (first last : Date) :
    Engine Fetching := do
  renewWorkLease cfg runId code owner now
  let observation ← Ask.fetchDailyBars code first last
  let source := observation.selectedSource
  let bars ← Proc.lift (selectExpectedBars observation.bars code expected missing)
  let unresolved := missing.filter fun day =>
    decide (day ∉ bars.map fun b => b.content.tradeDate)
  renewWorkLease cfg runId code owner now
  let moment ← workNow cfg now
  let reported ← Ask.absencesFor code unresolved moment
  let absences ← Proc.lift (validateAbsences reported code unresolved)
  renewWorkLease cfg runId code owner now
  let _ ← workNow cfg now
  let factors ← fetchFactors code bars
  let result ← Ask.commitSecurityObservations bars factors absences
  if result.conflictedBars ≠ 0 ∨ result.conflictedAbsences ≠ 0 then pure (.conflicted source)
  else do
    notify cfg code
    let unresolved := unresolved.filter fun day =>
      decide (day ∉ absences.map fun a => a.content.tradeDate)
    if unresolved = [] then pure (.complete (some source))
    else pure (.unresolved source unresolved.length)

/-- The end of `ingest_security_interval`, once the sessions are covered. -/
def finishItem (code : String) (expected : List Date) (first last : Date)
    (source : Option String) : Engine SecurityIngestionResult := do
  let factorStatus ← ensureFactorCoverage cfg runId code owner now first last
  match factorStatus with
  | some _ => do
      mark cfg runId code now .sourceMissing source
      pure ⟨code, .sourceMissing, expected.length, expected.length, source⟩
  | none => do
      let source := source.getD "existing_coverage"
      mark cfg runId code now .completed (some source)
      pure ⟨code, .completed, expected.length, expected.length, some source⟩

/-- What follows the fetching in `ingest_security_interval`, by what it came
to; `coveredBefore` sessions were covered before. -/
def concludeItem (code : String) (expected : List Date) (first last : Date)
    (coveredBefore : ℕ) : Fetching → Engine SecurityIngestionResult
  | .conflicted source => do
      mark cfg runId code now .conflicted (some source)
      pure ⟨code, .conflicted, expected.length, coveredBefore, some source⟩
  | .unresolved source count => do
      mark cfg runId code now .sourceMissing (some source)
      pure ⟨code, .sourceMissing, expected.length, expected.length - count, some source⟩
  | .complete source => finishItem cfg runId owner now code expected first last source

/-- `if missing:`, with what is missing between its first and last date -/
def fetchAll (code : String) (expected missing : List Date) : Engine Fetching :=
  match missing.head?, missing.getLast? with
  | some start, some finish => fetchMissing cfg runId owner now code expected missing start finish
  | _, _ => pure (.complete none)

/-- The `try` block of `ingest_security_interval`. -/
def ingestExpected (code : String) (expected : List Date) (first last : Date) :
    Engine SecurityIngestionResult := do
  let covered ← Ask.coveredDates code first last
  let missing := expected.filter fun day => decide (day ∉ covered)
  let fetching ← fetchAll cfg runId owner now code expected missing
  concludeItem cfg runId owner now code expected first last covered.dedup.length fetching

/-- `except (MarketProviderError, IngestionError, ValueError, KeyError)` -/
def caught (e : MarketError) : Bool :=
  match e.kind with
  | .provider | .ingestion | .value | .key => true
  | .marketRun | .integrity | .other => false

/-- `ingest_security_interval(run_id, security, sessions, owner_id, now)` -/
def ingestSecurityInterval (security : RunSecurity) (sessions : List Date) :
    Engine SecurityIngestionResult := do
  let code := security.code
  let claimNow ← workNow cfg now
  let claimed ← Ask.claimItem runId code owner claimNow cfg.itemLeaseSeconds
  if claimed = false then do
    let current ← Ask.item runId code
    pure ⟨code, current.status, 0, 0, current.selectedSource⟩
  else do
    let run ← Ask.run runId
    let item ← Ask.item runId code
    let expected := expectedSessions security sessions (max run.startDate item.startDate)
      (min run.endDate item.endDate)
    match expected.head?, expected.getLast? with
    | some first, some last =>
        (ingestExpected cfg runId owner now code expected first last).handle fun e =>
          if caught e then do
            mark cfg runId code now .sourceMissing none
            pure ⟨code, .sourceMissing, expected.length, 0, none⟩
          else .fail e
    | _, _ => do
        mark cfg runId code now .skipped (some "listing_interval")
        pure ⟨code, .skipped, 0, 0, some "listing_interval"⟩

/-- One round of the loop of `execute_run`. -/
def ingestNext (sessions : List Date) (security : RunSecurity) : Engine Unit := do
  beat cfg owner
  let item ← Ask.item runId security.code
  if item.status.terminal then pure ()
  else do
    let _ ← ingestSecurityInterval cfg runId owner now security sessions
    beat cfg owner

def startPending (run : RunRow) : Engine RunRow :=
  if run.status = .pending then do
    let moment ← workNow cfg now
    Ask.startRun runId moment
  else pure run

/-- `execute_run(run_id, sessions, owner_id, now)` -/
def executeRun (sessions : List Date) : Engine Unit := do
  let run ← Ask.run runId
  let run ← startPending cfg runId now run
  Proc.lift (refuse (run.status ≠ .running) (ingestionError "只有待运行或运行中的任务可以摄取"))
  let sessions ← Proc.lift (validateSessions sessions run.startDate run.endDate)
  let securities ← Ask.runSecurities runId
  Proc.each (ingestNext cfg runId owner now sessions) securities
  let moment ← workNow cfg now
  Ask.finalizeRun runId moment

end Ingestion

/-! ## What a call does -/

/-- The tables an engine works on. -/
structure Store where
  control : Control
  facts : Facts
deriving DecidableEq

def EngineCall.perform : (c : EngineCall) → Store → Option (Attempt (c.Answer × Store))
  | .run runId, s => some do
      let row ← readRun runId s.control
      pure (row, s)
  | .startRun runId now, s => some do
      let (_, control) ← Market.startRun runId now s.control
      let row ← readRun runId control
      pure (row, { s with control := control })
  | .runSecurities runId, s => some do
      let securities ← Market.runSecurities runId s.control
      pure (securities, s)
  | .item runId code, s => some do
      let row ← readItem runId code s.control
      pure (row, s)
  | .claimItem runId code owner now leaseSeconds, s => some do
      let (claimed, control) ← Market.claimItem runId code owner now leaseSeconds s.control
      pure (claimed, { s with control := control })
  | .renewItemClaim runId code owner now leaseSeconds, s => some do
      let (renewed, control) ← Market.renewItemClaim runId code owner now leaseSeconds s.control
      pure (renewed, { s with control := control })
  | .markItem runId code status now source, s => some do
      let (_, control) ← Market.markItem runId code status now source s.control
      pure ((), { s with control := control })
  | .finalizeRun runId now, s => some do
      let (_, control) ← Market.finalizeRun runId now s.control
      pure ((), { s with control := control })
  | .coveredDates code start finish, s =>
      some (pure (Market.coveredDates code start finish s.facts, s))
  | .barsFor code start finish, s => some (pure (Market.barsFor code start finish s.facts, s))
  | .factorDates code start finish, s =>
      some (pure (Market.factorDates code start finish s.facts, s))
  | .commitSecurityObservations bars factors absences, s => some do
      let (result, facts) ← Market.commitSecurityObservations bars factors absences s.facts
      pure (result, { s with facts := facts })
  | .fetchDailyBars _ _ _, _ => none
  | .absencesFor _ _ _, _ => none
  | .fetchAdjustmentFactors _ _ _, _ => none
  | .clock, _ => none
  | .heartbeat _, _ => none
  | .afterCommit _, _ => none

def EngineCall.exec (c : EngineCall) (s : Store) (r : Except MarketError c.Answer)
    (t : Store) : Prop :=
  match c.perform s with
  | none => t = s
  | some (.ok (a, u)) => r = .ok a ∧ t = u
  | some (.error e) => r = .error e ∧ t = s

/-! ## Readiness

Whether the stored facts cover a window of a security: every session in it
has a bar or a proven absence, and every bar its adjustment factor. -/

structure SecurityReadiness where
  code : String
  ready : Bool
  missingSessions : List Date
  missingFactors : List Date
  reason : Option String
deriving DecidableEq, Repr

def coverage (code : String) (expected : List Date) (first last : Date) (facts : Facts) :
    SecurityReadiness :=
  let covered := coveredDates code first last facts
  let missingSessions := expected.filter fun day => decide (day ∉ covered)
  let factors := factorDates code first last facts
  let missingFactors := ((barsFor code first last facts).map fun b =>
    b.content.tradeDate).filter fun day => decide (day ∉ factors)
  { code := code
    ready := missingSessions.isEmpty && missingFactors.isEmpty
    missingSessions := missingSessions
    missingFactors := missingFactors
    reason :=
      if missingSessions ≠ [] then some "存在未证明的交易日覆盖"
      else if missingFactors ≠ [] then some "存在缺失的复权因子"
      else none }

/-- `security(security, sessions, start, end)` -/
def securityReadiness (security : RunSecurity) (sessions : List Date) (start finish : Date)
    (facts : Facts) : SecurityReadiness :=
  if sessions = [] then ⟨security.code, false, [], [], some "没有已证明的交易日"⟩
  else
    let expected := expectedSessions security sessions start finish
    match expected.head?, expected.getLast? with
    | some first, some last => coverage security.code expected first last facts
    | _, _ => ⟨security.code, true, [], [], none⟩

end Ahunter.Market
