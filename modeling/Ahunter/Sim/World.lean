import Ahunter.Sim.Settlement
import Ahunter.Sim.Evidence

/-!
# The account's events

What one test's account lives in: the account projection with the two that
change together with it, and the log of the events that made them. An
operation enters the log in one of two ways. `World.direct` runs one ledger
operation and commits it as an event of its own. A stage (`Staged`) runs
several against a private copy, each sealed and validated like an event, and
`World.publish` commits their joint effect as one.

A request's digest stands for the request itself throughout, and a commit
that the record store refuses leaves the world as it was, so a step here is
a successful one.
-/

namespace Ahunter.Sim

open Ahunter.Lib

/-! ## Requests -/

inductive AccountRequest
  | reserveBatch (orders : List Reservation) (at_ : Instant)
  | fill (orderId : String) (quantity : ℤ) (price : ℚ) (at_ : Instant)
  | cancelRequest (orderId : String) (at_ : Instant)
  | release (orderId : String) (reason : OrderStatus) (at_ : Instant)
  | checkpoint (at_ : Instant)
  | settlePayables (at_ : Instant)
  | corporateRegister (terms : CorporateTerms) (at_ : Instant)
  | corporateApply (corporateId : String) (at_ : Instant)
  | corporatePay (corporateId : String) (at_ : Instant)
  | specialSettlement (terms : SettlementTerms) (at_ : Instant)
  | specialSettlementPay (settlementId : String) (at_ : Instant)
deriving DecidableEq

def AccountRequest.check : AccountRequest → Attempt Unit
  | .reserveBatch orders _ => batchAdmissible orders
  | .fill _ quantity price _ => refuse (quantity ≤ 0 ∨ price ≤ 0)
      (invalidValue "positive integral fill quantity and finite price required")
  | .release _ reason _ => releasable reason
  | _ => .ok ()

def AccountRequest.operation : AccountRequest → Operation
  | .checkpoint _ => .checkpoint
  | _ => .other

def perform (spec : AccountSpec) (actionId : String) :
    AccountRequest → AccountState → Attempt Outcome
  | .reserveBatch orders at_, s => reserveBatch spec orders at_ s
  | .fill orderId quantity price at_, s =>
      fill spec actionId orderId quantity price at_ s
  | .cancelRequest orderId at_, s => cancelRequest orderId at_ s
  | .release orderId reason at_, s => release orderId at_ reason s
  | .checkpoint at_, s => .ok (checkpoint at_ s)
  | .settlePayables at_, s => settlePayables spec at_ s
  | .corporateRegister terms at_, s => do
      registrable spec terms at_
      corporateRegister spec terms at_ s
  | .corporateApply corporateId at_, s => corporateApply spec corporateId at_ s
  | .corporatePay corporateId at_, s => corporatePay spec corporateId at_ s
  | .specialSettlement terms at_, s => do
      settlementAdmissible spec terms at_
      specialSettlement spec terms at_ s
  | .specialSettlementPay settlementId at_, s =>
      specialSettlementPay spec settlementId at_ s

inductive StageRequest
  | account (r : AccountRequest)
  | orderMarketState (orderId : String) (status : OrderStatus) (reason : String)
deriving DecidableEq

def StageRequest.operation : StageRequest → Operation
  | .account r => r.operation
  | .orderMarketState .. => .other

inductive Request
  | opening
  | account (r : AccountRequest)
  | executionAccept (orders : List Reservation)
      (evidence : List AcceptanceEvidence) (at_ : Instant)
  | executionMinute (evidence : MinuteEvidence)
  | executionQueue (evidence : QueueEvidence) (throughAt : Instant)
      (throughSequence : ℤ)
  | planSubmit (phaseId : String) (plan : StagePlan)
      (evidence : List AcceptanceEvidence) (actorId : String)
  | planAdvance (at_ : Instant) (evidence : List MarketActionEvidence)
  | planDayExpiry (day : Date) (at_ : Instant)
      (cursors : Dict String MarketCursor) (rules : List MarketRule)
deriving DecidableEq

/-! ## The execution projection -/

structure QueueMarker where
  afterSequence : ℤ
  sourceRef : String
deriving DecidableEq

structure Accepted where
  acceptedAt : Instant
  priority : ℕ
  acceptanceSourceHash : String
  receiptAvailableAt : Option Instant
  queuePositions : Dict String QueueMarker
deriving DecidableEq

/-- The simulated share budget of one historical minute. -/
structure Capacity where
  historicalVolume : ℕ
  total : ℤ
  used : ℤ
  marketRule : MarketRule
  sourceHash : String
deriving DecidableEq

inductive Route
  | minute
  | queue
deriving DecidableEq, Repr

inductive FillStatus
  | modelNoFill
  | filled
  | partFilled
deriving DecidableEq, Repr

structure MinuteResult where
  orderId : String
  status : FillStatus
  reason : Option String
  quantity : ℤ
  price : Option ℚ
  model : String
  acceptedAt : Instant
  priority : ℕ
deriving DecidableEq

structure MinuteRecord where
  evidence : MinuteEvidence
  actionId : String
  results : List MinuteResult
  formalReady : Bool
deriving DecidableEq

/-- How far a stream has been replayed, and the book it left. -/
structure QueueState where
  market : QueueMarket
  sourceHash : String
  lastSequence : ℤ
  processedAt : Instant
  book : Dict String QueueOrder
  seen : Dict String Unit
  session : QueueSession
  captureEndSequence : ℤ
  captureEndAt : Instant
deriving DecidableEq

structure QueueFill where
  orderId : String
  sequence : ℤ
  at_ : Instant
  price : ℚ
  quantity : ℤ
deriving DecidableEq

structure QueueOutcome where
  orderId : String
  quantity : ℤ
  status : FillStatus
  reason : Option String
  model : String
deriving DecidableEq

inductive QueueAudit
  | passed (sequence : ℤ) (kind : QueueEventType) (orderId : String)
      (quantity : ℤ)
  | traded (sequence : ℤ) (historicalQuantity : ℤ)
      (eligibleOrderIds : List String)
deriving DecidableEq

structure QueueResult where
  fills : List QueueFill
  results : List QueueOutcome
  historicalAudit : List QueueAudit
  market : QueueMarket
  formalReady : Bool
deriving DecidableEq

/-- `security + ":" + start.isoformat()`; the second half has one length, so
the pair is the key. -/
abbrev MinuteKey := String ×ₗ ℤ

def minuteKey (security : String) (start : Instant) : MinuteKey :=
  toLex (security, start)

structure ExecutionState where
  orders : Dict String Accepted
  nextPriority : ℕ
  liquidity : Dict MinuteKey Capacity
  minutes : Dict MinuteKey MinuteRecord
  routes : Dict MinuteKey Route
  queues : Dict String QueueState
  queueResults : Dict String QueueResult
  reservedOrderIds : Dict String String
deriving DecidableEq

def emptyExecution : ExecutionState where
  orders := Dict.empty
  nextPriority := 0
  liquidity := Dict.empty
  minutes := Dict.empty
  routes := Dict.empty
  queues := Dict.empty
  queueResults := Dict.empty
  reservedOrderIds := Dict.empty

/-! ## The plans projection -/

inductive TimingStatus
  | accepted
  | rejected
deriving DecidableEq, Repr

inductive MatchingSession
  | queuedForMatching
  | openingAuction
  | continuous
  | closingAuction
deriving DecidableEq, Repr

/-- The times of an ingress, when `submission_timing` finds them. -/
structure Timing where
  status : TimingStatus
  code : Option String
  platformReceivedAt : Instant
  exchangeReceivedAt : Instant
  exchangeAcceptedAt : Option Instant
  receiptAvailableAt : Instant
  matchingSession : Option MatchingSession
  canParticipateOpeningAuction : Bool
deriving DecidableEq

inductive FlowOperation
  | new
  | cancel
deriving DecidableEq, Repr

inductive FlowState
  | waitingMarket
  | waitingReceipt
  | exchangeAccepted
  | cancelTooLate
  | cancelRejected
  | cancelConfirmed
  | rejected
  | targetSatisfied
  | replacementExpired
  | replacementRejected
  | dayExpired
deriving DecidableEq, Repr

inductive FlowOutcome
  | rejected
  | cancelConfirmed
deriving DecidableEq, Repr

structure Workflow where
  planId : String
  index : ℕ
  instruction : Instruction
  phaseId : String
  tradeDate : Date
  priority : ℕ
  operation : FlowOperation
  orderId : String
  state : FlowState
  nextAt : Option Instant
  timing : Timing
  reason : Option String
  outcome : Option FlowOutcome
  replacementQuantity : Option ℤ
deriving DecidableEq

/-- `plan.plan_id + ":" + str(index)`; the digits after the last colon are
the index, so the pair is the key. -/
abbrev FlowKey := String ×ₗ ℕ

def Workflow.key (f : Workflow) : FlowKey := toLex (f.planId, f.index)

/-- `flow["workflow_id"]` -/
def Workflow.workflowId (f : Workflow) : String :=
  f.planId ++ ":" ++ toString f.index

structure AcceptedPlan where
  plan : StagePlan
  phaseId : String
  acceptedAt : Instant
  request : Request
  submissionActionId : String
deriving DecidableEq

structure FlowHistory where
  workflowId : String
  state : FlowState
  at_ : Instant
  reason : Option String
  replacementQuantity : Option ℤ
deriving DecidableEq

structure PlansState where
  phases : Dict String String
  plans : Dict String AcceptedPlan
  workflows : Dict FlowKey Workflow
  nextPriority : ℕ
  expiredDays : List Date
  history : Dict String (List FlowHistory)
deriving DecidableEq

def emptyPlans : PlansState where
  phases := Dict.empty
  plans := Dict.empty
  workflows := Dict.empty
  nextPriority := 0
  expiredDays := []
  history := Dict.empty

/-! ## Stages -/

/-- One step a stage has taken. -/
structure Effect where
  actionId : String
  request : StageRequest
  at_ : Instant
  visibleAt : Instant
  entries : List Entry
deriving DecidableEq

/-- `_StagedAccount`: a private state and the steps that led to it. -/
structure Staged where
  value : AccountState
  effects : List Effect
deriving DecidableEq

/-- `stage.entries` -/
def Staged.entries (st : Staged) : List Entry := st.effects.flatMap Effect.entries

/-- `stage._prior(action_id, request)` -/
def Staged.prior (st : Staged) (actionId : String) (r : AccountRequest) :
    Attempt Bool :=
  match st.effects.reverse.find? fun e => e.actionId = actionId with
  | none => pure false
  | some e => do
      refuse (e.request ≠ .account r)
        (conflict "staged account action identity has different input")
      pure true

/-- `stage._commit(action_id, request, state, …)` -/
def Staged.commit (spec : AccountSpec) (st : Staged) (actionId : String)
    (r : StageRequest) (o : Outcome) : Attempt Staged := do
  let o ← prepareState spec r.operation o
  pure { value := o.state
         effects := st.effects ++
           [⟨actionId, r, o.at_, o.visibleAt, o.entries⟩] }

def Staged.run (spec : AccountSpec) (st : Staged) (actionId : String)
    (r : AccountRequest) : Attempt Staged := do
  r.check
  if ← st.prior actionId r then pure st
  else do
    let o ← perform spec actionId r st.value
    st.commit spec actionId (.account r) o

/-- `stage.value["orders"][order_id][…] = …`, outside any operation. -/
def Staged.mark (st : Staged) (orderId : String) (f : Order → Order) :
    Attempt Staged := do
  let order ← need (st.value.orders.get? orderId) (missingKey orderId)
  pure { st with value := st.value.setOrder orderId (f order) }

/-! ## Events -/

structure AccountEvent where
  actionId : String
  request : Request
  effects : List Effect
  entries : List Entry
  visibleAt : Instant
  simulatedAt : Instant
  state : AccountState
deriving DecidableEq

structure World where
  account : Option AccountState
  events : List AccountEvent
  execution : ExecutionState
  plans : PlansState
deriving DecidableEq

/-- Before the account is opened. -/
def World.start : World where
  account := none
  events := []
  execution := emptyExecution
  plans := emptyPlans

def World.journal (w : World) : List Entry := w.events.flatMap AccountEvent.entries

/-- `account._state()` -/
def World.state (w : World) : Attempt AccountState :=
  need w.account (conflict "simulated account has not been initialized")

def World.prior (w : World) (actionId : String) (r : Request)
    (message : String) : Attempt Bool :=
  match w.events.find? fun e => e.actionId = actionId with
  | none => pure false
  | some e => do
      refuse (e.request ≠ r) (conflict message)
      pure true

/-- `account._prior(action_id, request)` -/
def World.accountPrior (w : World) (actionId : String) (r : Request) :
    Attempt Bool :=
  w.prior actionId r "account action identity has different input"

/-- `engine._prior(action_id, request)` -/
def World.enginePrior (w : World) (actionId : String) (r : Request) :
    Attempt Bool :=
  w.prior actionId r "execution action identity has different input"

/-- `account._commit(…)`: seal the state and publish the event. -/
def World.commit (spec : AccountSpec) (w : World) (actionId : String)
    (request : Request) (operation : Operation) (effects : List Effect)
    (o : Outcome) : Attempt World := do
  let o ← prepareState spec operation o
  pure { w with
    account := some o.state
    events := w.events ++ [{
      actionId := actionId
      request := request
      effects := effects
      entries := o.entries
      visibleAt := o.visibleAt
      simulatedAt := o.at_
      state := o.state }] }

/-- `account.initialize(action_id=…)`; `running` is the test's status. -/
def World.initializeAccount (spec : AccountSpec) (w : World)
    (actionId : String) (running : Bool) : Attempt World := do
  if ← w.accountPrior actionId .opening then pure w
  else do
    refuse (w.account.isSome = true) (conflict "account already exists")
    refuse (running = false)
      ⟨.fenced, "account initialization requires a running test"⟩
    let o ← Sim.initializeAccount spec
    w.commit spec actionId .opening .opening [] o

/-- A ledger operation as an event of its own. -/
def World.direct (spec : AccountSpec) (w : World) (actionId : String)
    (r : AccountRequest) : Attempt World := do
  r.check
  if ← w.accountPrior actionId (.account r) then pure w
  else do
    let s ← w.state
    let o ← perform spec actionId r s
    w.commit spec actionId (.account r) r.operation [] o

/-- `account.stage()` -/
def World.stage (w : World) : Attempt Staged := do
  let s ← w.state
  pure { value := s, effects := [] }

def World.publish (spec : AccountSpec) (w : World) (actionId : String)
    (request : Request) (st : Staged) (execution : ExecutionState)
    (plans : PlansState) (at_ : Instant) : Attempt World := do
  let o : Outcome := {
    state := st.value
    at_ := at_
    visibleAt := max at_ (st.value.visibleAt.getD at_)
    entries := st.entries }
  let w ← w.commit spec actionId request .other st.effects o
  pure { w with execution := execution, plans := plans }

end Ahunter.Sim
