import Ahunter.Lib.Flow
import Ahunter.Market.Engine
import Ahunter.Market.Sessions

/-!
# Cold start and catch-up

A cold start freezes five years of sessions and the securities that were listed
in them. From then on a catch-up looks back a few days, takes every stored
session since the cold start as what is to be covered, and plans a run over
what is missing. The engine then works on the run.

The universe is what the exchanges answer, which may be an error. The names,
statuses and times of its securities go into its hash and into rows that
nothing here reads, so a security is what a run keeps of it, and the hashes are
what a digest makes of them.
-/

namespace Ahunter.Market

open Ahunter.Lib
open Ahunter.Sim (Date Stamp addMonths)

/-! ## The universe -/

/-- `UniverseSnapshot`, whose securities are in the order of their codes. -/
structure UniverseSnapshot where
  securities : List RunSecurity
  nonempty : securities ≠ []
  ordered : (securities.map RunSecurity.code).Pairwise (· < ·)

/-- The hashes of a universe and of the scope of a plan. -/
structure Digests where
  universeHash : List RunSecurity → String
  scopeHash : Date → String → List (String × Date × Date) → String

/-- `for_window(start_date, end_date)` -/
def UniverseSnapshot.forWindow (u : UniverseSnapshot) (start finish : Date) :
    Attempt (List RunSecurity) := do
  refuse (finish < start) ⟨.other, "结束日期无效"⟩
  pure (u.securities.filter fun s =>
    decide (s.listDate ≤ finish ∧ ∀ last ∈ s.delistDate, start ≤ last))

/-! ## Runs -/

/-- `latest_run(run_type=…, statuses=…)` -/
def Control.latestRun (c : Control) (runType : RequestType) (statuses : List RunStatus) :
    Option (String × RunRow) :=
  firstBy (fun e => OrderDual.toDual (toLex (isoKey e.2.createdAt, e.1)))
    (c.runs.entries.filter fun e =>
      decide (e.2.runType = runType) && decide (e.2.status ∈ statuses))

/-! ## Plans -/

def catchUpError (message : String) : MarketError := ⟨.other, message⟩

structure CatchUpPlan where
  targetSession : Date
  startDate : Date
  sessions : List Date
  universeHash : String
  securities : List RunSecurity
  itemRanges : ItemRanges
  scopeHash : String

/-- `_expected_sessions(list_date, delist_date, sessions)` -/
def RunSecurity.sessionsIn (security : RunSecurity) (sessions : List Date) : List Date :=
  sessions.filter fun day =>
    decide (security.listDate ≤ day ∧
      ∀ last ∈ security.delistDate <|> sessions.getLast?, day ≤ last)

def missingSessions (sessions : List Date) (facts : Facts) (security : RunSecurity) : List Date :=
  let expected := security.sessionsIn sessions
  match expected.head?, expected.getLast? with
  | some first, some last =>
      expected.filter fun day => decide (day ∉ coveredDates security.code first last facts)
  | _, _ => []

def missingRange (sessions : List Date) (facts : Facts) (security : RunSecurity) :
    Option (Date × Date) :=
  match (missingSessions sessions facts security).head?,
      (missingSessions sessions facts security).getLast? with
  | some first, some last => some (first, last)
  | _, _ => none

def gaps (sessions : List Date) (facts : Facts) (eligible : List RunSecurity) :
    List (RunSecurity × Date × Date) :=
  eligible.filterMap fun s => (missingRange sessions facts s).map fun range => (s, range)

/-- `ranges`, by code -/
def rangesOf (missing : List (RunSecurity × Date × Date)) : Dict String (Date × Date) :=
  Dict.ofList (missing.map fun e => (e.1.code, e.2))

def ItemRanges.ofDict (d : Dict String (Date × Date)) : ItemRanges :=
  ⟨d.entries, d.keys_nodup⟩

def planFor (digests : Digests) (target : Date) (sessions : List Date)
    (missing : List (RunSecurity × Date × Date)) : Option CatchUpPlan :=
  match (missing.map fun e => e.2.1).min? with
  | none => none
  | some start =>
      let selected := missing.map Prod.fst
      let ranges := rangesOf missing
      let universeHash := digests.universeHash selected
      some ⟨target, start, sessions, universeHash, selected, .ofDict ranges,
        digests.scopeHash target universeHash ranges.entries⟩

/-- `_build_plan(target, base_start)`, as the exchanges answer -/
def buildPlan (digests : Digests) (exchanges : Attempt UniverseSnapshot) (target baseStart : Date)
    (t : Sessions) (facts : Facts) : Attempt (Option CatchUpPlan) := do
  let sessions ← sessionsFor baseStart target t
  refuse (sessions.getLast? ≠ some target) (catchUpError "本地交易日事实不完整")
  let snapshot ← exchanges
  let eligible ← snapshot.forWindow baseStart target
  pure (planFor digests target sessions (gaps sessions facts eligible))

/-! ## The world of the workflows -/

/-- The tables that the workflows work on, with the windows whose sessions have
been refreshed, which nothing reads. -/
structure World where
  store : Store
  sessions : Sessions
  refreshed : List (Date × Date)
deriving DecidableEq

def World.start : World := ⟨⟨Control.empty, Facts.empty⟩, Dict.empty, []⟩

abbrev Workflow (α : Type) := Flow World MarketError α

namespace Workflow

def control {α : Type} (f : Control → Attempt (α × Control)) : Workflow α :=
  Flow.transact fun w => do
    let r ← f w.store.control
    pure (r.1, { w with store := { w.store with control := r.2 } })

/-- `self._sessions.refresh(start, end, as_of)` -/
def refresh (p : Providers) (start finish : Date) (asOf : Stamp) : Workflow Unit := fun w =>
  match Market.refresh p start finish asOf w.sessions with
  | (.ok u, t) => (.ok u, { w with sessions := t, refreshed := (start, finish) :: w.refreshed })
  | (.error e, t) => (.error e, { w with sessions := t })

end Workflow

/-- `request(request_id)` -/
def requestOf (requestId : String) (w : World) : Attempt RequestRow := do
  let requestId ← requireText requestId "请求编号" 128
  need (w.store.control.requests.get? requestId) ⟨.key, requestId⟩

def runOf (runId : String) (w : World) : Attempt RunRow :=
  need (w.store.control.runs.get? runId) ⟨.key, runId⟩

section Workflows

variable (p : Providers) (digests : Digests) (exchanges : Attempt UniverseSnapshot) (now : Stamp)

/-! ## Catch-up -/

def completeBaseline (w : World) : Attempt RunRow := do
  let baseline ← need (w.store.control.latestRun .coldStart [.complete])
    (catchUpError "冷启动基线尚未完整，不能执行日常补洞")
  pure baseline.2

/-- `max(baseline.start_date, now.date() - timedelta(days=10))` -/
def probeStart (baseline : RunRow) : Date := max baseline.startDate (now.date - 10)

/-- `plan_due(now)` -/
def planDue : Workflow (Option CatchUpPlan) := do
  let baseline ← Flow.read completeBaseline
  Workflow.refresh p (probeStart now baseline) now.date now
  let target ← Flow.read fun w => latestCompletedSession now w.sessions
  Flow.read fun w =>
    buildPlan digests exchanges target baseline.startDate w.sessions w.store.facts

/-- `submit_due(now)` -/
def submitDue (digest : IdempotencyKey → String) : Workflow (Option String) := do
  let plan ← planDue p digests exchanges now
  match plan with
  | none => pure none
  | some plan => do
      let requestId ← Workflow.control
        (submitCatchUp digest plan.startDate plan.targetSession now (some plan.scopeHash))
      pure (some requestId)

def runSessions (sessions : List Date) (run : RunRow) : List Date :=
  sessions.filter fun day => decide (run.startDate ≤ day ∧ day ≤ run.endDate)

/-- `if run.status == "partial": resume_partial_run(run.run_id, now)` -/
def resumeIfPartial (runId : String) (run : RunRow) : Workflow Unit :=
  if run.status = .partialRun then Workflow.control (resumePartialRun runId now) else pure ()

def reopen (runId : String) : Workflow (Option RunRow) := do
  let run ← Flow.read (runOf runId)
  if run.status = .complete then pure none
  else do
    resumeIfPartial now runId run
    let run ← Flow.read (runOf runId)
    pure (some run)

/-- The part of `execute_claimed(request, owner_id, now)` that creates the run of
a plan, with the run and the sessions that the engine is then called with. -/
def executePlan (runId requestId : String) (request : RequestRow) (sessions : List Date)
    (plan : CatchUpPlan) : Workflow (Option (String × List Date)) := do
  Flow.lift (refuse (plan.startDate < request.startDate.getD plan.startDate)
    (catchUpError "当前缺口早于已冻结的补洞请求窗口"))
  let runId ← Workflow.control (createRun runId requestId plan.universeHash plan.securities
    (some plan.itemRanges) now)
  let run ← reopen now runId
  pure (run.map fun run => (runId, runSessions sessions run))

/-- `execute_claimed(request, owner_id, now)` of a catch-up, up to the engine -/
def catchUpClaimed (runId requestId owner : String) :
    Workflow (Option (String × List Date)) := do
  let request ← Flow.read (requestOf requestId)
  Flow.lift (refuse (request.requestType ≠ .catchUp ∨ request.status ≠ .claimed)
    (catchUpError "只有已认领的补洞请求可以执行"))
  let baseline ← Flow.read completeBaseline
  let target ← Flow.lift (need request.targetSession (catchUpError "补洞请求缺少目标交易日"))
  Workflow.refresh p (probeStart now baseline) now.date now
  let sessions ← Flow.read fun w => sessionsFor baseline.startDate target w.sessions
  Flow.lift (refuse (sessions.getLast? ≠ some target) (catchUpError "补洞目标没有完整的交易日证明"))
  let plan ← Flow.read fun w =>
    buildPlan digests exchanges target baseline.startDate w.sessions w.store.facts
  match plan with
  | none => do
      Workflow.control (completeClaimedRequest requestId owner now)
      pure none
  | some plan => executePlan now runId requestId request sessions plan

/-- `resume_partial(owner_id, now)`, up to the engine; the error is of the
workflow that resumes -/
def resumePartial (runType : RequestType) (incomplete : String) :
    Workflow (Option (String × List Date)) := do
  let latest ← Flow.read fun w =>
    .ok (w.store.control.latestRun runType [.pending, .partialRun])
  match latest with
  | none => pure none
  | some (runId, run) => do
      let sessions ← Flow.read fun w => sessionsFor run.startDate run.endDate w.sessions
      Flow.lift (refuse (sessions.getLast? ≠ some run.targetSession) (catchUpError incomplete))
      resumeIfPartial now runId run
      pure (some (runId, sessions))

/-! ## Cold start -/

/-- `_calendar_years_before(value, years)` -/
def calendarYearsBefore (day : Date) (years : ℤ) : Date := addMonths day (-(12 * years))

def coldStartTarget (request : RequestRow) : Workflow Date :=
  match request.targetSession with
  | some target => pure target
  | none => do
      Workflow.refresh p (calendarYearsBefore now.date 1) now.date now
      Flow.read fun w => latestCompletedSession now w.sessions

/-- `prepare_claimed(request, now)`, with the run and its sessions -/
def prepareClaimed (runId requestId : String) : Workflow (String × List Date) := do
  let request ← Flow.read (requestOf requestId)
  Flow.lift (refuse (request.requestType ≠ .coldStart ∨ request.status ≠ .claimed)
    (⟨.other, "只有已认领的冷启动请求可以冻结"⟩ : MarketError))
  let target ← coldStartTarget p now request
  Workflow.refresh p (calendarYearsBefore target 5) target now
  let sessions ← Flow.read fun w => sessionsFor (calendarYearsBefore target 5) target w.sessions
  let start ← Flow.lift (need sessions.head?
    (⟨.other, "五年窗口内没有已证明的交易日"⟩ : MarketError))
  Flow.lift (refuse (sessions.getLast? ≠ some target)
    (⟨.other, "目标交易日没有被完整观察"⟩ : MarketError))
  Workflow.control (configureClaimedRequest requestId target start target)
  let snapshot ← Flow.lift exchanges
  let eligible ← Flow.lift (snapshot.forWindow start target)
  Flow.lift (refuse (eligible = []) (⟨.other, "五年窗口内没有可摄取的沪深 A 股"⟩ : MarketError))
  let runId ← Workflow.control (createRun runId requestId (digests.universeHash eligible) eligible
    none now)
  pure (runId, sessions)

/-- `execute_claimed(request, owner_id, now)` of a cold start, up to the engine -/
def coldStartClaimed (runId requestId : String) : Workflow (Option (String × List Date)) := do
  let prepared ← prepareClaimed p digests exchanges now runId requestId
  let run ← reopen now prepared.1
  match run with
  | none => pure none
  | some run => do
      Flow.lift (refuse (run.status ≠ .pending ∧ run.status ≠ .running)
        (⟨.other, "冷启动运行状态不能执行"⟩ : MarketError))
      pure (some (prepared.1, prepared.2))

end Workflows

end Ahunter.Market
