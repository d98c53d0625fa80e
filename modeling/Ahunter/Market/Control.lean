import Ahunter.Lib.Dict
import Ahunter.Lib.Text
import Ahunter.Sim.Time

/-!
# The control plane of market-daily work

Requests, the runs that serve them, one item for each security of a run, and
the lease of the service. Every operation is one transaction: it either
yields its result and the tables it leaves, or raises and leaves them as
they were.

The texts that only a reader sees, messages and error texts, are left out,
and a digest is whatever function of a key the caller brings: two keys of one
digest clash where the tables say so.
-/

namespace Ahunter.Market

open Ahunter.Lib
open Ahunter.Sim (Date Instant Stamp)

/-! ## Errors -/

inductive ErrorKind
  | marketRun
  | ingestion
  | provider
  | value
  | key
  | integrity
  | other
deriving DecidableEq, Repr

structure MarketError where
  kind : ErrorKind
  message : String
deriving DecidableEq, Repr

abbrev Attempt (α : Type) := Except MarketError α

/-- `MarketRunError(message)` -/
def runError (message : String) : MarketError := ⟨.marketRun, message⟩

def integrityError (message : String) : MarketError := ⟨.integrity, message⟩

/-! ## Inputs -/

/-- `_CODE_RE.fullmatch(code)` -/
def isCode (code : String) : Bool :=
  match code.toList with
  | c :: rest => (c == '0' || c == '3' || c == '6') && decide (rest.length = 5)
      && rest.all isDecimal
  | [] => false

inductive Exchange
  | sh
  | sz
deriving DecidableEq, Repr

/-- `exchange_for_code(code)` -/
def exchangeForCode (code : String) : Attempt Exchange := do
  refuse (isCode code = false)
    ⟨.value, "code must be a six-digit Shanghai or Shenzhen code"⟩
  pure (if code.toList.head? = some '6' then .sh else .sz)

/-- `_require_text(value, field_name, maximum)` -/
def requireText (value field : String) (maximum : ℕ) : Attempt String := do
  refuse (strip value = "" ∨ maximum < (strip value).length)
    (runError s!"{field} 必须是非空文本")
  pure (strip value)

def requireCode (code : String) : Attempt Unit :=
  refuse (isCode code = false) (runError "证券代码必须属于沪深 A 股范围")

def requireLeaseSeconds (leaseSeconds : ℤ) : Attempt Unit :=
  refuse (leaseSeconds ≤ 0) (runError "租约秒数必须为正整数")

/-- `now + timedelta(seconds=seconds)` -/
def plusSeconds (now : Stamp) (seconds : ℤ) : Stamp :=
  { now with instant := now.instant + 1000000 * seconds }

/-- The order of the texts `datetime.isoformat()` writes. -/
def isoKey (s : Stamp) : ℤ ×ₗ Bool ×ₗ ℤ :=
  toLex (s.instant + s.zone.offset, toLex (decide (s.zone.offset < 0), |s.zone.offset|))

/-! ## Rows -/

inductive RequestType
  | coldStart
  | catchUp
deriving DecidableEq, Repr

inductive RequestStatus
  | pending
  | claimed
  | completed
  | failed
  | cancelled
deriving DecidableEq, Repr

inductive RunStatus
  | pending
  | running
  | partialRun
  | complete
  | failed
  | cancelled
deriving DecidableEq, Repr

inductive ItemStatus
  | pending
  | running
  | completed
  | sourceMissing
  | conflicted
  | skipped
deriving DecidableEq, Repr

/-- `status in _TERMINAL_ITEM_STATES` -/
def ItemStatus.terminal : ItemStatus → Bool
  | .completed | .sourceMissing | .conflicted | .skipped => true
  | .pending | .running => false

/-- `status IN ('completed', 'skipped')` -/
def ItemStatus.done : ItemStatus → Bool
  | .completed | .skipped => true
  | _ => false

/-- `status IN ('source_missing', 'conflicted')` -/
def ItemStatus.missed : ItemStatus → Bool
  | .sourceMissing | .conflicted => true
  | _ => false

inductive IdempotencyKey
  | intent
  | window (requestType : RequestType) (target start finish : Date) (scope : Option String)
deriving DecidableEq

structure RequestRow where
  requestType : RequestType
  targetSession : Option Date
  startDate : Option Date
  endDate : Option Date
  idempotencyKey : IdempotencyKey
  status : RequestStatus
  createdAt : Stamp
  claimedBy : Option String
  claimedAt : Option Stamp
  completedAt : Option Stamp
deriving DecidableEq

structure RunRow where
  requestId : String
  runType : RequestType
  status : RunStatus
  targetSession : Date
  startDate : Date
  endDate : Date
  universeHash : String
  totalItems : ℕ
  completedItems : ℕ
  failedItems : ℕ
  createdAt : Stamp
  startedAt : Option Stamp
  finishedAt : Option Stamp
deriving DecidableEq

/-- `RunSecurity`, as far as anything reads it. -/
structure RunSecurity where
  code : String
  listDate : Date
  delistDate : Option Date
  codeValid : isCode code = true
  interval : ∀ d ∈ delistDate, listDate ≤ d
deriving DecidableEq

structure ItemRow where
  startDate : Date
  endDate : Date
  status : ItemStatus
  attempts : ℕ
  selectedSource : Option String
  claimedBy : Option String
  claimExpiresAt : Option Stamp
  updatedAt : Stamp
  completedAt : Option Stamp
deriving DecidableEq

/-- The row of `market_daily_service_leases`, whose key is a constant. -/
structure LeaseRow where
  ownerId : String
  acquiredAt : Stamp
  heartbeatAt : Stamp
  expiresAt : Stamp
deriving DecidableEq

abbrev ItemKey := String ×ₗ String

def itemKey (runId code : String) : ItemKey := toLex (runId, code)

def ItemKey.runId (k : ItemKey) : String := (ofLex k).1

structure Control where
  requests : Dict String RequestRow
  runs : Dict String RunRow
  securities : Dict ItemKey RunSecurity
  items : Dict ItemKey ItemRow
  lease : Option LeaseRow
deriving DecidableEq

def Control.empty : Control :=
  ⟨Dict.empty, Dict.empty, Dict.empty, Dict.empty, none⟩

def earlier {α κ : Type} [LinearOrder κ] (key : α → κ) (best : Option α) (x : α) : Option α :=
  if ∀ b ∈ best, key x < key b then some x else best

def firstBy {α κ : Type} [LinearOrder κ] (key : α → κ) (l : List α) : Option α :=
  l.foldl (earlier key) none

def Control.setRequest (c : Control) (requestId : String) (row : RequestRow) : Control :=
  { c with requests := c.requests.set requestId row }

def Control.setRun (c : Control) (runId : String) (row : RunRow) : Control :=
  { c with runs := c.runs.set runId row }

def Control.setItem (c : Control) (k : ItemKey) (row : ItemRow) : Control :=
  { c with items := c.items.set k row }

def Control.countItems (c : Control) (runId : String) (p : ItemStatus → Bool) : ℕ :=
  (c.items.entries.filter fun e => decide (e.1.runId = runId) && p e.2.status).length

/-- `SELECT 1 FROM market_daily_runs WHERE request_id = ?` -/
def Control.hasRun (c : Control) (requestId : String) : Bool :=
  c.runs.values.any fun run => decide (run.requestId = requestId)

/-! ## Submitting -/

def insertRequest (digest : IdempotencyKey → String) (row : RequestRow) (c : Control) :
    Attempt (String × Control) :=
  match c.requests.entries.find? fun e => decide (e.2.idempotencyKey = row.idempotencyKey) with
  | some e => .ok (e.1, c)
  | none => do
      let requestId := digest row.idempotencyKey
      refuse (c.requests.contains requestId = true) (integrityError "market_daily_requests")
      pure (requestId, c.setRequest requestId row)

def pendingRequest (requestType : RequestType) (target start finish : Option Date)
    (key : IdempotencyKey) (now : Stamp) : RequestRow :=
  ⟨requestType, target, start, finish, key, .pending, now, none, none, none⟩

/-- `_submit_request(…)` -/
def submitRequest (digest : IdempotencyKey → String) (requestType : RequestType)
    (target start finish : Date) (now : Stamp) (suffix : Option String) :
    Control → Attempt (String × Control) :=
  insertRequest digest (pendingRequest requestType (some target) (some start) (some finish)
    (.window requestType target start finish suffix) now)

/-- `submit_cold_start(target_session, start_date, now)` -/
def submitColdStart (digest : IdempotencyKey → String) (target start : Date) (now : Stamp)
    (c : Control) : Attempt (String × Control) := do
  refuse (target < start) (runError "开始日期不能晚于目标交易日")
  submitRequest digest .coldStart target start target now none c

/-- `submit_cold_start_intent(now)` -/
def submitColdStartIntent (digest : IdempotencyKey → String) (now : Stamp) :
    Control → Attempt (String × Control) :=
  insertRequest digest (pendingRequest .coldStart none none none .intent now)

/-- `submit_catch_up(start_date, end_date, now, scope_hash=…)` -/
def submitCatchUp (digest : IdempotencyKey → String) (start finish : Date) (now : Stamp)
    (scope : Option String) (c : Control) : Attempt (String × Control) := do
  refuse (finish < start) (runError "开始日期不能晚于结束日期")
  refuse (∃ hash ∈ scope, isHash hash = false) (runError "补洞范围哈希必须是 64 位小写十六进制")
  submitRequest digest .catchUp finish start finish now scope c

/-! ## The service lease -/

/-- `acquire_lease(owner_id, now, lease_seconds=…)`, which `renew_lease` is too -/
def acquireLease (owner : String) (now : Stamp) (leaseSeconds : ℤ) (c : Control) :
    Attempt (Bool × Control) := do
  let owner ← requireText owner "服务实例" 128
  requireLeaseSeconds leaseSeconds
  if ∃ row ∈ c.lease, row.ownerId ≠ owner ∧ now.instant < row.expiresAt.instant then
    pure (false, c)
  else
    pure (true, { c with lease := some ⟨owner, now, now, plusSeconds now leaseSeconds⟩ })

/-- `release_lease(owner_id)` -/
def releaseLease (owner : String) (c : Control) : Attempt (Bool × Control) := do
  let owner ← requireText owner "服务实例" 128
  if ∃ row ∈ c.lease, row.ownerId = owner then
    pure (true, { c with lease := none })
  else
    pure (false, c)

/-! ## Claiming requests -/

/-- `CASE request_type WHEN 'cold_start' THEN 0 ELSE 1 END` -/
def RequestType.rank : RequestType → ℕ
  | .coldStart => 0
  | .catchUp => 1

def claimedRequest (row : RequestRow) (owner : String) (now : Stamp) : RequestRow :=
  { row with status := .claimed, claimedBy := some owner, claimedAt := some now }

/-- `claim_next_request(owner_id, now)` -/
def claimNextRequest (owner : String) (now : Stamp) (c : Control) :
    Attempt (Option String × Control) := do
  let owner ← requireText owner "服务实例" 128
  let candidates := c.requests.entries.filter fun e => decide (e.2.status = .pending)
  match firstBy (fun e => (toLex (e.2.requestType.rank, toLex (isoKey e.2.createdAt, e.1)) :
      ℕ ×ₗ (ℤ ×ₗ Bool ×ₗ ℤ) ×ₗ String)) candidates with
  | none => pure (none, c)
  | some e => pure (some e.1, c.setRequest e.1 (claimedRequest e.2 owner now))

/-- `claim_recovered_request(owner_id, now)` -/
def claimRecoveredRequest (owner : String) (now : Stamp) (c : Control) :
    Attempt (Option String × Control) := do
  let owner ← requireText owner "服务实例" 128
  let candidates := c.requests.entries.filterMap fun e =>
    if e.2.status = .pending ∧ c.hasRun e.1 = false then
      e.2.claimedAt.map fun at_ => (e, at_)
    else none
  match firstBy (fun e => (toLex (e.1.2.requestType.rank, toLex (isoKey e.2,
      toLex (isoKey e.1.2.createdAt, e.1.1))) :
      ℕ ×ₗ (ℤ ×ₗ Bool ×ₗ ℤ) ×ₗ (ℤ ×ₗ Bool ×ₗ ℤ) ×ₗ String)) candidates with
  | none => pure (none, c)
  | some e => pure (some e.1.1, c.setRequest e.1.1 (claimedRequest e.1.2 owner now))

def ownRequest (c : Control) (requestId owner : String) (notOwn hasRun : String) :
    Attempt RequestRow := do
  let row ← need (c.requests.get? requestId) (runError "请求不存在")
  refuse (row.status ≠ .claimed ∨ row.claimedBy ≠ some owner) (runError notOwn)
  refuse (c.hasRun requestId = true) (runError hasRun)
  pure row

/-- `release_request_claim(request_id, owner_id, now, …)` -/
def releaseRequestClaim (requestId owner : String) (c : Control) :
    Attempt (Unit × Control) := do
  let requestId ← requireText requestId "请求编号" 128
  let owner ← requireText owner "服务实例" 128
  let row ← ownRequest c requestId owner "只能释放本服务认领的请求" "已创建运行的请求不能释放"
  pure ((), c.setRequest requestId { row with status := .pending, claimedBy := none })

/-- `complete_claimed_request(request_id, owner_id, now, …)` -/
def completeClaimedRequest (requestId owner : String) (now : Stamp) (c : Control) :
    Attempt (Unit × Control) := do
  let requestId ← requireText requestId "请求编号" 128
  let owner ← requireText owner "服务实例" 128
  let row ← ownRequest c requestId owner "只能完成本服务认领的请求" "已有运行的请求不能作为空操作完成"
  pure ((), c.setRequest requestId { row with status := .completed, completedAt := some now })

/-- `configure_claimed_request(request_id, target_session, start_date, end_date, now)` -/
def configureClaimedRequest (requestId : String) (target start finish : Date)
    (c : Control) : Attempt (Unit × Control) := do
  let requestId ← requireText requestId "请求编号" 128
  refuse (target < start ∨ target ≠ finish) (runError "冷启动窗口必须以目标交易日结束")
  let row ← need (c.requests.get? requestId) (runError "请求不存在")
  refuse (row.status ≠ .claimed) (runError "只有已认领的请求可以冻结窗口")
  refuse ((row.targetSession.isSome ∨ row.startDate.isSome ∨ row.endDate.isSome) ∧
      (row.targetSession, row.startDate, row.endDate) ≠ (some target, some start, some finish))
    (runError "已冻结的请求窗口不能变更")
  pure ((), c.setRequest requestId
    { row with targetSession := some target, startDate := some start, endDate := some finish })

/-! ## Runs -/

/-- A mapping from codes to intervals, in its own order. -/
structure ItemRanges where
  entries : List (String × Date × Date)
  keysNodup : (entries.map Prod.fst).Nodup

def ItemRanges.get? (r : ItemRanges) (code : String) : Option (Date × Date) :=
  (r.entries.find? fun e => decide (e.1 = code)).map Prod.snd

/-- What `create_run` checks of the ranges before it opens its transaction. -/
def checkRanges (codes : List String) : Option ItemRanges → Attempt Unit
  | none => pure ()
  | some r => do
      refuse (¬ ((∀ e ∈ r.entries, e.1 ∈ codes) ∧ ∀ code ∈ codes, code ∈ r.entries.map Prod.fst))
        (runError "逐证券区间必须与冻结股票池完全对应")
      walk (fun _ e => refuse (e.2.2 < e.2.1) (runError "逐证券开始日期不能晚于结束日期"))
        () r.entries

def newItem (window : Date × Date) (now : Stamp) : ItemRow :=
  ⟨window.1, window.2, .pending, 0, none, none, none, now, none⟩

/-- The insertions of `create_run`. -/
def insertRun (runId requestId universeHash : String) (securities : List RunSecurity)
    (ranges : Option ItemRanges) (request : RequestRow) (target start finish : Date)
    (now : Stamp) (c : Control) : Attempt (String × Control) := do
  refuse (c.runs.contains runId = true) (integrityError "market_daily_runs")
  refuse (∃ s ∈ securities, c.securities.contains (itemKey runId s.code) = true)
    (integrityError "market_daily_run_securities")
  refuse (∃ s ∈ securities, c.items.contains (itemKey runId s.code) = true)
    (integrityError "market_daily_run_items")
  pure (runId, { c with
    runs := c.runs.set runId
      ⟨requestId, request.requestType, .pending, target, start, finish, universeHash,
        securities.length, 0, 0, now, none, none⟩
    securities := c.securities.setAll (securities.map fun s => (itemKey runId s.code, s))
    items := c.items.setAll (securities.map fun s =>
      (itemKey runId s.code,
        newItem ((ranges.bind fun r => r.get? s.code).getD (start, finish)) now)) })

def Control.runFor (c : Control) (requestId : String) : Option (String × RunRow) :=
  firstBy (fun e => isoKey e.2.createdAt)
    (c.runs.entries.filter fun e => decide (e.2.requestId = requestId))

/-- `create_run(request_id, universe_hash, securities, now, item_ranges=…)`;
`run_id` is the identifier it draws. -/
def createRun (runId requestId universeHash : String) (securities : List RunSecurity)
    (ranges : Option ItemRanges) (now : Stamp) (c : Control) : Attempt (String × Control) := do
  let requestId ← requireText requestId "请求编号" 128
  refuse (isHash universeHash = false) (runError "股票池哈希必须是 64 位小写十六进制")
  refuse (securities = []) (runError "股票池快照不能为空且必须为元组")
  refuse (¬ (securities.map RunSecurity.code).Nodup) (runError "股票池不能包含重复证券")
  checkRanges (securities.map RunSecurity.code) ranges
  let request ← need (c.requests.get? requestId) (runError "请求不存在")
  refuse (request.status ≠ .claimed) (runError "只有已认领的请求可以创建运行")
  match c.runFor requestId with
  | some e => pure (e.1, c)
  | none => do
      let target ← need (request.targetSession <|> request.endDate) (runError "请求缺少日期范围")
      let start ← need request.startDate (runError "请求缺少日期范围")
      let finish ← need request.endDate (runError "请求缺少日期范围")
      walk (fun _ e => refuse (e.2.1 < start ∨ finish < e.2.2)
        (runError s!"{e.1} 的逐证券区间超出请求窗口")) () ((ranges.map ItemRanges.entries).getD [])
      insertRun runId requestId universeHash securities ranges request target start finish now c

/-- `start_run(run_id, now)` -/
def startRun (runId : String) (now : Stamp) (c : Control) : Attempt (Unit × Control) := do
  let runId ← requireText runId "运行编号" 128
  let run ← need (c.runs.get? runId) (runError "运行不存在")
  refuse (run.status ≠ .pending) (runError "只有待运行任务可以启动")
  pure ((), c.setRun runId { run with status := .running, startedAt := some now })

def requeued (now : Stamp) (row : ItemRow) : ItemRow :=
  { row with
    status := .pending
    claimedBy := none
    claimExpiresAt := none
    updatedAt := now
    completedAt := none }

def Control.requeue (c : Control) (runId : String) (status : ItemStatus) (now : Stamp) :
    Control :=
  { c with items := c.items.map fun k row =>
      if k.runId = runId ∧ row.status = status then requeued now row else row }

/-- `_refresh_run_progress(connection, run_id)` -/
def refreshRunProgress (runId : String) (c : Control) : Control :=
  match c.runs.get? runId with
  | none => c
  | some run => c.setRun runId { run with
      completedItems := c.countItems runId ItemStatus.done
      failedItems := c.countItems runId ItemStatus.missed }

/-- `resume_partial_run(run_id, now)` -/
def resumePartialRun (runId : String) (now : Stamp) (c : Control) :
    Attempt (Unit × Control) := do
  let runId ← requireText runId "运行编号" 128
  let run ← need (c.runs.get? runId) (runError "运行不存在")
  refuse (run.status ≠ .partialRun) (runError "只有部分完成的任务可以恢复")
  let c := (c.requeue runId .sourceMissing now).setRun runId
    { run with status := .running, startedAt := some now, finishedAt := none }
  pure ((), refreshRunProgress runId c)

/-! ## Items -/

def runItem (c : Control) (runId code : String) : Attempt (RunRow × ItemRow) := do
  let run ← need (c.runs.get? runId) (runError "运行不存在")
  let item ← need (c.items.get? (itemKey runId code)) (runError "证券不属于该运行的冻结股票池")
  pure (run, item)

/-- The row `mark_item` leaves. -/
def markedRow (item : ItemRow) (status : ItemStatus) (now : Stamp) (source : Option String) :
    ItemRow :=
  { item with
    status := status
    attempts := item.attempts + if status = .running ∧ item.status ≠ .running then 1 else 0
    selectedSource := source <|> item.selectedSource
    claimedBy := if status.terminal then none else item.claimedBy
    claimExpiresAt := if status.terminal then none else item.claimExpiresAt
    updatedAt := now
    completedAt := if status.terminal then some now else none }

def requireSource : Option String → Attempt (Option String)
  | none => pure none
  | some source => do
      let source ← requireText source "数据源" 128
      pure (some source)

/-- `mark_item(run_id, code, status, now, selected_source=…, error=…)` -/
def markItem (runId code : String) (status : ItemStatus) (now : Stamp)
    (source : Option String) (c : Control) : Attempt (Unit × Control) := do
  let runId ← requireText runId "运行编号" 128
  requireCode code
  refuse (status = .pending) (runError "逐证券状态无效")
  let source ← requireSource source
  let (run, item) ← runItem c runId code
  refuse (run.status ≠ .running) (runError "只有运行中的任务可以更新逐证券状态")
  refuse (item.status.terminal = true ∧ item.status ≠ status)
    (runError "终态逐证券任务不能再次转换")
  let c := c.setItem (itemKey runId code) (markedRow item status now source)
  pure ((), if status.terminal then refreshRunProgress runId c else c)

/-- Whether a claim has run out, or there is none. -/
def ItemRow.expired (item : ItemRow) (now : Stamp) : Bool :=
  item.claimExpiresAt.all fun at_ => decide (at_.instant ≤ now.instant)

/-- The row `claim_item` leaves. -/
def claimedRow (item : ItemRow) (owner : String) (now : Stamp) (leaseSeconds : ℤ) : ItemRow :=
  { item with
    status := .running
    attempts := item.attempts + if item.status ≠ .running ∨ item.expired now = true then 1 else 0
    claimedBy := some owner
    claimExpiresAt := some (plusSeconds now leaseSeconds)
    updatedAt := now
    completedAt := none }

/-- `claim_item(run_id, code, owner_id, now, lease_seconds=…)` -/
def claimItem (runId code owner : String) (now : Stamp) (leaseSeconds : ℤ) (c : Control) :
    Attempt (Bool × Control) := do
  let runId ← requireText runId "运行编号" 128
  let owner ← requireText owner "服务实例" 128
  requireCode code
  requireLeaseSeconds leaseSeconds
  let run ← need (c.runs.get? runId) (runError "运行不存在")
  refuse (run.status ≠ .running) (runError "只有运行中的任务可以认领逐证券项目")
  let item ← need (c.items.get? (itemKey runId code)) (runError "证券不属于该运行的冻结股票池")
  if item.status.terminal then pure (false, c)
  else if item.status = .running ∧ (∃ holder ∈ item.claimedBy, holder ≠ owner)
      ∧ item.expired now = false then pure (false, c)
  else pure (true, c.setItem (itemKey runId code) (claimedRow item owner now leaseSeconds))

/-- The row `renew_item_claim` leaves. -/
def renewedRow (item : ItemRow) (now : Stamp) (leaseSeconds : ℤ) : ItemRow :=
  { item with claimExpiresAt := some (plusSeconds now leaseSeconds), updatedAt := now }

/-- `renew_item_claim(run_id, code, owner_id, now, lease_seconds=…)` -/
def renewItemClaim (runId code owner : String) (now : Stamp) (leaseSeconds : ℤ)
    (c : Control) : Attempt (Bool × Control) := do
  let runId ← requireText runId "运行编号" 128
  let owner ← requireText owner "服务实例" 128
  requireCode code
  requireLeaseSeconds leaseSeconds
  match c.items.get? (itemKey runId code) with
  | none => pure (false, c)
  | some item =>
      if item.status ≠ .running ∨ item.claimedBy ≠ some owner ∨ item.expired now = true then
        pure (false, c)
      else
        pure (true, c.setItem (itemKey runId code) (renewedRow item now leaseSeconds))

/-! ## Finishing and recovering -/

/-- `finalize_run(run_id, now)` -/
def finalizeRun (runId : String) (now : Stamp) (c : Control) : Attempt (Unit × Control) := do
  let runId ← requireText runId "运行编号" 128
  let run ← need (c.runs.get? runId) (runError "运行不存在")
  refuse (run.status ≠ .running) (runError "只有运行中的任务可以完成")
  refuse (c.countItems runId (fun s => !s.terminal) ≠ 0) (runError "仍有逐证券任务未完成")
  let failed := c.countItems runId ItemStatus.missed
  let c := c.setRun runId { run with
    status := if failed ≠ 0 then .partialRun else .complete
    completedItems := c.countItems runId ItemStatus.done
    failedItems := failed
    finishedAt := some now }
  pure ((), match c.requests.get? run.requestId with
    | none => c
    | some request =>
        c.setRequest run.requestId { request with status := .completed, completedAt := some now })

/-- The owners of unexpired service leases: `active_owners`. -/
def Control.active (c : Control) (now : Stamp) (owner : Option String) : Bool :=
  c.lease.any fun row =>
    decide (now.instant < row.expiresAt.instant) && decide (owner = some row.ownerId)

def Control.unclaim (c : Control) (requestId : String) : Control :=
  match c.requests.get? requestId with
  | none => c
  | some request =>
      if request.status = .claimed then
        c.setRequest requestId { request with status := .pending, claimedBy := none }
      else c

/-- `UPDATE market_daily_runs SET status = 'pending', started_at = NULL` -/
def Control.unstart (c : Control) (runId : String) : Control :=
  match c.runs.get? runId with
  | none => c
  | some run => c.setRun runId { run with status := .pending, startedAt := none }

/-- What `recover_expired_work` does to one run. -/
def recoverRun (now : Stamp) (c : Control) (runId requestId : String) : Control :=
  ((c.requeue runId .running now).unstart runId).unclaim requestId

def Control.staleRuns (c : Control) (now : Stamp) : List (String × String) :=
  c.runs.entries.filterMap fun e =>
    if e.2.status = .running then
      (c.requests.get? e.2.requestId).bind fun request =>
        if c.active now request.claimedBy then none else some (e.1, e.2.requestId)
    else none

def Control.staleClaims (c : Control) (now : Stamp) : List String :=
  (c.requests.entries.filter fun e =>
    decide (e.2.status = .claimed) && !c.hasRun e.1 && !c.active now e.2.claimedBy).map Prod.fst

/-- `recover_expired_work(now, lease_seconds=…)` -/
def recoverExpiredWork (now : Stamp) (leaseSeconds : ℤ) (c : Control) :
    Attempt (ℕ × Control) := do
  requireLeaseSeconds leaseSeconds
  let runs := c.staleRuns now
  let c := runs.foldl (fun c e => recoverRun now c e.1 e.2) c
  let claims := c.staleClaims now
  pure (runs.length + claims.length, claims.foldl Control.unclaim c)

/-! ## Reading -/

/-- `run(run_id)` -/
def readRun (runId : String) (c : Control) : Attempt RunRow := do
  let runId ← requireText runId "运行编号" 128
  need (c.runs.get? runId) ⟨.key, runId⟩

/-- `item(run_id, code)` -/
def readItem (runId code : String) (c : Control) : Attempt ItemRow := do
  let runId ← requireText runId "运行编号" 128
  need (c.items.get? (itemKey runId code)) ⟨.key, code⟩

/-- `run_securities(run_id)` -/
def runSecurities (runId : String) (c : Control) : Attempt (List RunSecurity) := do
  let runId ← requireText runId "运行编号" 128
  pure ((c.securities.entries.filter fun e => decide (e.1.runId = runId)).map Prod.snd)

/-! ## Calls -/

inductive Call
  | submitColdStart (target start : Date)
  | submitColdStartIntent
  | submitCatchUp (start finish : Date) (scope : Option String)
  | configureClaimedRequest (requestId : String) (target start finish : Date)
  | acquireLease (owner : String) (leaseSeconds : ℤ)
  | releaseLease (owner : String)
  | claimNextRequest (owner : String)
  | claimRecoveredRequest (owner : String)
  | releaseRequestClaim (requestId owner : String)
  | completeClaimedRequest (requestId owner : String)
  | createRun (runId requestId universeHash : String) (securities : List RunSecurity)
      (ranges : Option ItemRanges)
  | startRun (runId : String)
  | resumePartialRun (runId : String)
  | markItem (runId code : String) (status : ItemStatus) (source : Option String)
  | claimItem (runId code owner : String) (leaseSeconds : ℤ)
  | renewItemClaim (runId code owner : String) (leaseSeconds : ℤ)
  | finalizeRun (runId : String)
  | recoverExpiredWork (leaseSeconds : ℤ)

/-- The tables an operation leaves when it returns. -/
def left {α : Type} (x : Attempt (α × Control)) : Attempt Control :=
  x >>= fun r => pure r.2

def Call.returns (digest : IdempotencyKey → String) (now : Stamp) (c : Control) :
    Call → Attempt Control
  | .submitColdStart target start => left (Market.submitColdStart digest target start now c)
  | .submitColdStartIntent => left (Market.submitColdStartIntent digest now c)
  | .submitCatchUp start finish scope => left (Market.submitCatchUp digest start finish now scope c)
  | .configureClaimedRequest requestId target start finish =>
      left (Market.configureClaimedRequest requestId target start finish c)
  | .acquireLease owner leaseSeconds => left (Market.acquireLease owner now leaseSeconds c)
  | .releaseLease owner => left (Market.releaseLease owner c)
  | .claimNextRequest owner => left (Market.claimNextRequest owner now c)
  | .claimRecoveredRequest owner => left (Market.claimRecoveredRequest owner now c)
  | .releaseRequestClaim requestId owner => left (Market.releaseRequestClaim requestId owner c)
  | .completeClaimedRequest requestId owner =>
      left (Market.completeClaimedRequest requestId owner now c)
  | .createRun runId requestId universeHash securities ranges =>
      left (Market.createRun runId requestId universeHash securities ranges now c)
  | .startRun runId => left (Market.startRun runId now c)
  | .resumePartialRun runId => left (Market.resumePartialRun runId now c)
  | .markItem runId code status source => left (Market.markItem runId code status now source c)
  | .claimItem runId code owner leaseSeconds =>
      left (Market.claimItem runId code owner now leaseSeconds c)
  | .renewItemClaim runId code owner leaseSeconds =>
      left (Market.renewItemClaim runId code owner now leaseSeconds c)
  | .finalizeRun runId => left (Market.finalizeRun runId now c)
  | .recoverExpiredWork leaseSeconds => left (Market.recoverExpiredWork now leaseSeconds c)

def Call.after (digest : IdempotencyKey → String) (call : Call) (now : Stamp) (c : Control) :
    Control :=
  match call.returns digest now c with
  | .ok c' => c'
  | .error _ => c

/-- The tables that calls can lead to from some. -/
inductive Later (digest : IdempotencyKey → String) (c : Control) : Control → Prop
  | here : Later digest c c
  | next {c' : Control} (h : Later digest c c') (call : Call) (now : Stamp) :
      Later digest c (call.after digest now c')

end Ahunter.Market
