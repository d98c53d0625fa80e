import Ahunter.Sim.Queue

/-!
# Phase plans

A research phase submits one plan. Its new orders are reserved at once and
wait for the exchange; its cancellations and replacements mark the old orders
and wait as well. Every instruction is a workflow with the instant it falls
due next, and `advance` moves the workflows that fall due at one instant, in
priority order, each as far as it goes at that instant. A replacement is a
cancellation that, once confirmed, reserves what is left of its target under
the identity the plan set aside for it. At the end of the day `expireDay`
releases what is still live.
-/

namespace Ahunter.Sim

open Ahunter.Lib

/-! ## Ingress timing

When an instruction received in a research phase reaches the exchange, from
the market's acceptance intervals and the configured latencies alone. -/

/-- What `submission_timing` answers: no times, for a reason, or times. -/
inductive TimingAnswer
  | rejected (code : String)
  | blocked (code : String)
  | timed (timing : Timing)
deriving DecidableEq

def inSpan (z : Zone) (day : Date) (at_ : Instant) (i : Interval) : Bool :=
  z.combine day i.start ≤ at_ && at_ < z.combine day i.stop

def ingressAt (z : Zone) (day : Date) (received : Instant) (latencyMs : ℕ)
    (intervals : List Interval) : Option Instant :=
  intervals.findSome? fun i =>
    let candidate := plusMillis (max received (z.combine day i.start)) latencyMs
    if candidate < z.combine day i.stop then some candidate else none

def sessionAt (z : Zone) (day : Date) (rule : MarketRule) (at_ : Instant) :
    MatchingSession :=
  if inSpan z day at_ rule.openingAuction then .openingAuction
  else if rule.continuous.any (inSpan z day at_) then .continuous
  else if inSpan z day at_ rule.closingAuction then .closingAuction
  else .queuedForMatching

/-- The times of an ingress at `accepted`. -/
def timingAt (spec : AccountSpec) (rule : MarketRule) (day : Date)
    (received accepted : Instant) (receiptMs : ℕ) (operation : FlowOperation) :
    Timing :=
  let forbidden := operation = .cancel &&
    rule.cancelForbidden.any (inSpan spec.zone day accepted)
  let session := sessionAt spec.zone day rule accepted
  { status := if forbidden then .rejected else .accepted
    code := if forbidden then some "cancellation_forbidden" else none
    platformReceivedAt := received
    exchangeReceivedAt := accepted
    exchangeAcceptedAt := if forbidden then none else some accepted
    receiptAvailableAt := plusMillis accepted receiptMs
    matchingSession := if forbidden then none else some session
    canParticipateOpeningAuction := !forbidden && session = .openingAuction }

/-- `submission_timing(phase, rule, …)` -/
def submissionTiming (spec : AccountSpec) (phase : PhaseDefinition)
    (rule : MarketRule) (orderMs receiptMs : ℕ) (operation : FlowOperation) :
    TimingAnswer :=
  match phase.planReceivedAt, phase.tradingDate with
  | some received, some day =>
      let z := spec.zone
      if ¬ rule.covers day then .blocked "market_rule_not_effective"
      else if phase.kind = .postauction ∧ phase.boundary.eventCutoff ≠
          z.combine day rule.openingAuction.stop then
        .blocked "phase_market_clock_conflict"
      else if z.date received ≠ day ∨ received < phase.boundary.snapshotAt then
        .blocked "plan_reception_window_invalid"
      else if ∃ p ∈ rule.acceptOrders.zip rule.acceptOrders.tail,
          p.1.stop > p.2.start then
        .blocked "market_acceptance_intervals_invalid"
      else match ingressAt z day received orderMs rule.acceptOrders with
        | none => .blocked "no_market_acceptance_window"
        | some accepted =>
            .timed (timingAt spec rule day received accepted receiptMs operation)
  | _, _ => .rejected "phase_does_not_accept_plans"

/-! ## Submission -/

def fencedSession : Failure := ⟨.fenced,
  "only the host-designated main phase session can submit plans"⟩

/-- `_authorize(session, active=…)` -/
def authorize (spec : AccountSpec) (session : Session) (active : Bool) :
    Attempt Unit := do
  refuse (session.ownsAccount = false ∨ session.actorId ≠ spec.mainActorId ∨
      session.isChild = true) fencedSession
  refuse (active = true ∧ session.scopeActive = false)
    ⟨.fenced, "phase permission is closed"⟩

structure PlanScan where
  references : List String
  newIds : List String
  securities : List String
  sides : List (String × Side)

def oldOrder (s : AccountState) (day : Date)
    (scan : PlanScan) (oldOrderId : String) : Attempt Order := do
  refuse (oldOrderId ∈ scan.references) (exchangeRejected
    "multiple cancellation/replacement instructions reference one old order")
  let refusal := exchangeRejected
    "referenced old order is not a live same-day order"
  let old ← need (s.orders.get? oldOrderId) refusal
  refuse ((old.status ≠ .reserved ∧ old.status ≠ .partFilled) ∨
      old.tradeDate ≠ day) refusal
  pure old

def freshIdentity (x : ExecutionState) (s : AccountState) (scan : PlanScan)
    (identity : String) : Attempt Unit :=
  refuse (identity ∈ scan.newIds ∨ s.orders.contains identity = true ∨
      x.reservedOrderIds.contains identity = true)
    (exchangeRejected "new order identity is duplicated or already used")

def scanInstruction (x : ExecutionState) (s : AccountState)
    (day : Date) (scan : PlanScan) : Instruction → Attempt PlanScan
  | .new order => do
      freshIdentity x s scan order.orderId
      pure { scan with
        newIds := scan.newIds ++ [order.orderId]
        securities := scan.securities ++ [order.security]
        sides := scan.sides ++ [(order.security, order.side)] }
  | .cancel oldOrderId => do
      let old ← oldOrder s day scan oldOrderId
      pure { scan with
        references := scan.references ++ [oldOrderId]
        securities := scan.securities ++ [old.security]
        sides := scan.sides ++ [(old.security, old.side)] }
  | .replace oldOrderId newOrderId target _ _ _ => do
      let old ← oldOrder s day scan oldOrderId
      refuse (target < old.filledQuantity) (exchangeRejected
        "replacement target is below already filled old quantity")
      freshIdentity x s scan newOrderId
      pure {
        references := scan.references ++ [oldOrderId]
        newIds := scan.newIds ++ [newOrderId]
        securities := scan.securities ++ [old.security]
        sides := scan.sides ++ [(old.security, old.side)] }

/-- `_static_price(proof, rule, price, at, zone)` -/
def staticPrice (spec : AccountSpec) (proof : AcceptanceEvidence)
    (rule : MarketRule) (price : ℚ) (at_ : Instant) : Attempt Unit := do
  refuse (proof.at_ ≠ at_ ∨ spec.visible proof.availability ⟨at_, at_⟩ = false)
    (evidenceMissing "plan validation evidence is not available at fixed reception")
  boundsProven proof.priceBounds rule
  refuse (offTick price rule.tick ∨ proof.priceBounds.contains price = false)
    (exchangeRejected "planned price violates historical tick or daily bounds")

/-- The old order an instruction names, the price it is checked at and the
operation it starts as. -/
structure Planned where
  old : Option Order
  security : String
  rule : MarketRule
  price : ℚ
  operation : FlowOperation
  orderId : String

def planned (s : AccountState) : Instruction → Attempt Planned
  | .new order => pure {
      old := none
      security := order.security
      rule := order.marketRule
      price := order.limitPrice
      operation := .new
      orderId := order.orderId }
  | .cancel oldOrderId => do
      let old ← need (s.orders.get? oldOrderId) (missingKey oldOrderId)
      pure {
        old := some old
        security := old.security
        rule := old.marketRule
        price := old.limitPrice
        operation := .cancel
        orderId := oldOrderId }
  | .replace oldOrderId _ _ price _ _ => do
      let old ← need (s.orders.get? oldOrderId) (missingKey oldOrderId)
      pure {
        old := some old
        security := old.security
        rule := old.marketRule
        price := price
        operation := .cancel
        orderId := oldOrderId }

def latencyMs (spec : AccountSpec) : FlowOperation → ℕ
  | .new => spec.execution.orderLatencyMs
  | .cancel => spec.execution.cancelLatencyMs

def prepareInstruction (spec : AccountSpec) (s : AccountState)
    (proofs : List AcceptanceEvidence) (phase : PhaseDefinition) (at_ : Instant)
    (p : Planned) (instruction : Instruction) : Attempt Timing := do
  let proof ← proofFor proofs p.security
  staticPrice spec proof p.rule p.price at_
  match instruction with
  | .new order => acceptance spec order proof s at_ false
  | _ => pure ()
  match submissionTiming spec phase p.rule (latencyMs spec p.operation)
      spec.execution.receiptLatencyMs p.operation with
  | .blocked code => .error (evidenceMissing code)
  | .rejected _ => .error (missingKey "exchange_received_at")
  | .timed timing => pure timing

def newWorkflow (plan : StagePlan) (phase : PhaseDefinition) (day : Date)
    (nextPriority index : ℕ) (instruction : Instruction) (p : Planned)
    (timing : Timing) : Workflow where
  planId := plan.planId
  index := index
  instruction := instruction
  phaseId := phase.phaseId
  tradeDate := day
  priority := nextPriority + index
  operation := p.operation
  orderId := p.orderId
  state := .waitingMarket
  nextAt := some timing.exchangeReceivedAt
  timing := timing
  reason := none
  outcome := none
  replacementQuantity := none

def prepareOne (spec : AccountSpec) (s : AccountState)
    (proofs : List AcceptanceEvidence) (phase : PhaseDefinition) (day : Date)
    (at_ : Instant) (plan : StagePlan) (nextPriority : ℕ)
    (acc : List Workflow) (entry : Instruction × ℕ) : Attempt (List Workflow) := do
  let (instruction, index) := entry
  let p ← planned s instruction
  let timing ← prepareInstruction spec s proofs phase at_ p instruction
  pure (acc ++
    [newWorkflow plan phase day nextPriority index instruction p timing])

def newOrders (instructions : List Instruction) : List Reservation :=
  instructions.filterMap fun
    | .new order => some order
    | _ => none

def reserveNew (spec : AccountSpec) (st : Staged) (actionId : String)
    (orders : List Reservation) (at_ : Instant) : Attempt Staged :=
  if orders = [] then pure st
  else do
    let st ← st.run spec (actionId ++ ":reserve") (.reserveBatch orders at_)
    walk (fun st order => st.mark order.orderId fun o =>
      { o with status := .pendingAcceptance }) st orders

def enterWorkflow (spec : AccountSpec) (at_ : Instant)
    (acc : Staged × Dict FlowKey Workflow) (flow : Workflow) :
    Attempt (Staged × Dict FlowKey Workflow) := do
  let (st, workflows) := acc
  let st ← match flow.operation with
    | .new => pure st
    | .cancel => do
        let st ← st.run spec (flow.workflowId ++ ":request")
          (.cancelRequest flow.orderId at_)
        st.mark flow.orderId fun o => { o with cancelEffectiveAt := flow.nextAt }
  pure (st, workflows.set flow.key flow)

def reserveIds (ids : Dict String String) (planId : String)
    (newIds : List String) : Dict String String :=
  newIds.foldl (fun d identity => d.set identity planId) ids

def submissionPhase (spec : AccountSpec) (session : Session) :
    Attempt (PhaseDefinition × Instant) := do
  let refusal := exchangeRejected "phase does not accept trading plans"
  let phase ← need (spec.schedule.find? fun p => p.phaseId = session.phaseId)
    refusal
  let at_ ← need phase.planReceivedAt refusal
  pure (phase, at_)

/-- The part of `submit` that works on a stage. -/
def submitStage (spec : AccountSpec) (w : World) (actionId : String)
    (phase : PhaseDefinition) (at_ : Instant) (plan : StagePlan)
    (proofs : List AcceptanceEvidence) :
    Attempt (Staged × ExecutionState × PlansState) := do
  let st ← w.stage
  let day ← need phase.tradingDate (missingKey "trading_date")
  refuse (day ∈ w.plans.expiredDays)
    (exchangeRejected "trading day is already expired")
  refuse (w.plans.phases.contains phase.phaseId = true)
    (conflict "phase already accepted its one successful plan")
  let scan ← walk (scanInstruction w.execution st.value day) ⟨[], [], [], []⟩
    plan.instructions
  refuse ((∃ i ∈ scan.references, i ∈ scan.newIds) ∨
      ∃ a ∈ scan.sides, ∃ b ∈ scan.sides, a.1 = b.1 ∧ a.2 ≠ b.2)
    (exchangeRejected "plan has dependent/self-conflicting new orders")
  refuse (¬ proofsExact proofs scan.securities)
    (evidenceMissing "plan needs unique market evidence for exactly its securities")
  let prepared ← walk (prepareOne spec st.value proofs phase day at_ plan
    w.plans.nextPriority) [] plan.instructions.zipIdx
  let st ← reserveNew spec st actionId (newOrders plan.instructions) at_
  let (st, workflows) ← walk (enterWorkflow spec at_)
    (st, w.plans.workflows) prepared
  let ids := reserveIds w.execution.reservedOrderIds plan.planId scan.newIds
  let x := { w.execution with reservedOrderIds := ids }
  let plans := { w.plans with
    workflows := workflows
    nextPriority := w.plans.nextPriority + prepared.length
    phases := w.plans.phases.set phase.phaseId plan.planId }
  pure (st, x, plans)

/-- `plans.submit(session, plan, market_evidence, action_id=…)` -/
def submit (spec : AccountSpec) (w : World) (actionId : String)
    (session : Session) (plan : StagePlan) (proofs : List AcceptanceEvidence) :
    Attempt World := do
  authorize spec session false
  let (phase, at_) ← submissionPhase spec session
  let request := Request.planSubmit phase.phaseId plan proofs session.actorId
  if ← w.enginePrior actionId request then pure w
  else match w.plans.plans.get? plan.planId with
    | some accepted => do
        refuse (accepted.request ≠ request)
          (conflict "plan identity has different content")
        let _ ← w.enginePrior accepted.submissionActionId request
        pure w
    | none => do
        authorize spec session true
        let (st, x, plans) ← submitStage spec w actionId phase at_ plan proofs
        let record : AcceptedPlan := {
          plan := plan
          phaseId := phase.phaseId
          acceptedAt := at_
          request := request
          submissionActionId := actionId }
        let plans := { plans with plans := plans.plans.set plan.planId record }
        w.publish spec actionId request st x plans at_

/-! ## Advancing the workflows -/

def matchingTime (rule : MarketRule) (t : Clock) : Bool :=
  (rule.continuous ++ [rule.openingAuction, rule.closingAuction]).any fun span =>
    span.start ≤ t && t ≤ span.stop

/-- `_ordering(proof, rule, execution, at)` -/
def ordering (spec : AccountSpec) (proof : MarketActionEvidence)
    (rule : MarketRule) (x : ExecutionState) (at_ : Instant) : Attempt Unit := do
  refuse (proof.market.at_ ≠ at_ ∨
      spec.visible proof.market.availability ⟨at_, at_⟩ = false)
    (evidenceMissing "market action evidence is not available at its fixed time")
  if matchingTime rule (spec.zone.time at_) = false then pure ()
  else do
    let unordered := evidenceMissing
      "market action needs proven ordering against possible matches"
    let cursor ← need proof.cursor unordered
    refuse (cursor.sourceRef ∉ proof.market.sourceRefs) unordered
    let unreached := evidenceMissing
      "market replay has not reached the exact proven action cursor"
    let capture ← need
      (x.queues.get? (proof.market.security ++ ":" ++ cursor.streamId)) unreached
    refuse (capture.lastSequence ≠ cursor.afterSequence ∨ capture.processedAt ≠ at_)
      unreached

/-- `_order_state(stage, order_id, status, at, visible_at=…, reason=…)` -/
def setOrderState (spec : AccountSpec) (st : Staged) (orderId : String)
    (status : OrderStatus) (at_ visibleAt : Instant) (reason : String) :
    Attempt Staged := do
  let o ← orderMarketState orderId status at_ visibleAt st.value
  st.commit spec (spec.orderStateId orderId status at_ reason)
    (.orderMarketState orderId status reason) o

/-- One workflow on its way through an instant. -/
structure FlowRun where
  stage : Staged
  execution : ExecutionState
  flow : Workflow

def reachNew (spec : AccountSpec) (proof : MarketActionEvidence)
    (at_ : Instant) (order : Order) (run : FlowRun) : Attempt FlowRun := do
  let flow := run.flow
  let receipt := plusMillis at_ spec.execution.receiptLatencyMs
  match acceptance spec order.toReservation proof.market run.stage.value at_ true with
  | .error f =>
      if f.kind = .exchangeRejected then do
        let stage ← setOrderState spec run.stage flow.orderId
          .rejectedPendingReceipt at_ receipt f.message
        pure { run with
          stage := stage
          flow := { flow with
            state := .waitingReceipt
            outcome := some .rejected
            reason := some f.message
            nextAt := some receipt } }
      else .error f
  | .ok _ => do
      let stage ← setOrderState spec run.stage flow.orderId .reserved at_ receipt
        "exchange_accepted"
      pure {
        stage := stage
        execution := run.execution.enter flow.orderId at_ proof.market (some receipt)
        flow := { flow with
          state := .exchangeAccepted
          nextAt := none } }

def reachCancel (spec : AccountSpec) (at_ : Instant) (order : Order)
    (run : FlowRun) : Attempt FlowRun := do
  let flow := run.flow
  let receipt := plusMillis at_ spec.execution.receiptLatencyMs
  if order.status = .filled then
    pure { run with flow := { flow with
      state := .cancelTooLate
      nextAt := none
      reason := some "old_order_already_filled" } }
  else if flow.timing.status = .rejected then do
    let status := if order.filledQuantity ≠ 0 then OrderStatus.partFilled
      else .reserved
    let stage ← setOrderState spec run.stage flow.orderId status at_ receipt
      (flow.timing.code.getD "")
    pure { run with
      stage := stage
      flow := { flow with
        state := .cancelRejected
        nextAt := none
        reason := flow.timing.code } }
  else do
    let stage ← setOrderState spec run.stage flow.orderId .cancelEffective at_
      receipt "cancellation_effective"
    pure { run with
      stage := stage
      flow := { flow with
        state := .waitingReceipt
        outcome := some .cancelConfirmed
        nextAt := some receipt } }

def FlowOutcome.status : FlowOutcome → OrderStatus
  | .rejected => .rejected
  | .cancelConfirmed => .cancelConfirmed

def FlowOutcome.flowState : FlowOutcome → FlowState
  | .rejected => .rejected
  | .cancelConfirmed => .cancelConfirmed

/-- The order that replaces `old`. -/
def replacementOrder (old : Order) (newOrderId : String) (quantity : ℤ)
    (limitPrice : ℚ) (hq : 0 < quantity) (hp : 0 < limitPrice) : Reservation :=
  { old.toReservation with
    orderId := newOrderId
    quantity := quantity
    limitPrice := limitPrice
    quantity_pos := hq
    limitPrice_pos := hp }

def Failure.givesUpReplacement (f : Failure) : Bool :=
  f.kind.isAccountUnavailable && f.kind ≠ .executionEvidenceMissing

def sendReplacement (spec : AccountSpec) (proof : MarketActionEvidence)
    (at_ : Instant) (new : Reservation) (timing : Timing) (run : FlowRun) :
    Attempt FlowRun :=
  let flow := run.flow
  let reserved : Attempt Staged := do
    acceptance spec new proof.market run.stage.value at_ false
    run.stage.run spec (flow.workflowId ++ ":replacement")
      (.reserveBatch [new] at_)
  match reserved with
  | .error f =>
      if f.givesUpReplacement then
        pure { run with flow := { flow with
          state := .replacementRejected
          reason := some f.message } }
      else .error f
  | .ok stage => do
      let stage ← stage.mark new.orderId fun o =>
        { o with status := .pendingAcceptance }
      pure { run with
        stage := stage
        flow := { flow with
          state := .waitingMarket
          operation := .new
          orderId := new.orderId
          timing := timing
          nextAt := some timing.exchangeReceivedAt } }

def replaceConfirmed (spec : AccountSpec) (proof : MarketActionEvidence)
    (rule : MarketRule) (at_ : Instant) (newOrderId : String) (target : ℤ)
    (limitPrice : ℚ) (hp : 0 < limitPrice) (run : FlowRun) : Attempt FlowRun := do
  let old ← need (run.stage.value.orders.get? run.flow.orderId)
    (missingKey run.flow.orderId)
  let remaining := max 0 (target - old.filledQuantity)
  let flow := { run.flow with replacementQuantity := some remaining }
  if hq : 0 < remaining then do
    let phase ← need (spec.schedule.find? fun p => p.phaseId = flow.phaseId)
      (missingKey flow.phaseId)
    let phase := { phase with planReceivedAt := some at_ }
    let expired : FlowRun := { run with flow := { flow with
      state := .replacementExpired
      reason := some "no_same_day_acceptance_window" } }
    match submissionTiming spec phase rule spec.execution.orderLatencyMs
        spec.execution.receiptLatencyMs .new with
    | .timed timing =>
        if spec.zone.date at_ ≠ flow.tradeDate ∨ timing.status ≠ .accepted then
          pure expired
        else
          let new := replacementOrder old newOrderId remaining limitPrice hq hp
          sendReplacement spec proof at_ new timing { run with flow := flow }
    | _ => pure expired
  else pure { run with flow := { flow with state := .targetSatisfied } }

def receive (spec : AccountSpec) (proof : MarketActionEvidence)
    (rule : MarketRule) (at_ : Instant) (run : FlowRun) : Attempt FlowRun := do
  let flow := run.flow
  let outcome ← need flow.outcome (missingKey "outcome")
  let stage ← run.stage.run spec (flow.workflowId ++ ":receipt")
    (.release flow.orderId outcome.status at_)
  let run := { run with
    stage := stage
    flow := { flow with
      state := outcome.flowState
      nextAt := none } }
  match outcome, flow.instruction with
  | .cancelConfirmed, .replace _ newOrderId target limitPrice _ hp =>
      replaceConfirmed spec proof rule at_ newOrderId target limitPrice hp run
  | _, _ => pure run

def flowStep (spec : AccountSpec) (proofs : List MarketActionEvidence)
    (at_ : Instant) (run : FlowRun) : Attempt FlowRun := do
  let flow := run.flow
  let order ← need (run.stage.value.orders.get? flow.orderId)
    (missingKey flow.orderId)
  let rule := order.marketRule
  let proof ← need (proofs.find? fun p => p.market.security = order.security)
    (missingKey order.security)
  ordering spec proof rule run.execution at_
  match flow.state, flow.operation with
  | .waitingMarket, .new => reachNew spec proof at_ order run
  | .waitingMarket, .cancel => reachCancel spec at_ order run
  | _, _ => receive spec proof rule at_ run

def Workflow.snapshot (f : Workflow) (at_ : Instant) : FlowHistory where
  workflowId := f.workflowId
  state := f.state
  at_ := at_
  reason := f.reason
  replacementQuantity := f.replacementQuantity

/-- The `while` loop of `advance` over one workflow. A workflow passes at
most four states at one instant: cancellation, receipt, replacement, receipt. -/
def flowLoop (spec : AccountSpec) (proofs : List MarketActionEvidence)
    (at_ : Instant) : ℕ → FlowRun → List FlowHistory →
      Attempt (FlowRun × List FlowHistory)
  | 0, run, history => pure (run, history)
  | fuel + 1, run, history =>
      if run.flow.nextAt = some at_ then do
        let run ← flowStep spec proofs at_ run
        flowLoop spec proofs at_ fuel run (history ++ [run.flow.snapshot at_])
      else pure (run, history)

/-- The loop of `advance` over the due workflows, so far. -/
structure AdvanceRun where
  stage : Staged
  execution : ExecutionState
  workflows : Dict FlowKey Workflow
  history : List FlowHistory

/-- One due workflow of an `advance`. -/
def advanceOne (spec : AccountSpec) (proofs : List MarketActionEvidence)
    (at_ : Instant) (acc : AdvanceRun) (flow : Workflow) : Attempt AdvanceRun := do
  let (run, history) ← flowLoop spec proofs at_ 4
    ⟨acc.stage, acc.execution, flow⟩ acc.history
  pure { stage := run.stage
         execution := run.execution
         workflows := acc.workflows.set flow.key run.flow
         history := history }

def dueFlows (workflows : Dict FlowKey Workflow) (at_ : Instant) :
    List Workflow :=
  (workflows.values.filter fun f => f.nextAt = some at_).insertionSort
    fun a b => a.priority ≤ b.priority

def advanceProven (s : AccountState) (proofs : List MarketActionEvidence)
    (due : List Workflow) : Attempt Unit := do
  let needed ← walk (fun acc flow => do
    let order ← need (s.orders.get? flow.orderId) (missingKey flow.orderId)
    pure (acc ++ [order.security])) [] due
  refuse (¬ proofsExact (proofs.map MarketActionEvidence.market) needed ∨ due = [])
    (evidenceMissing
      "workflow advancement needs exact evidence for the due securities")

/-- `plans.advance(at=…, evidence=…, action_id=…)` -/
def advance (spec : AccountSpec) (w : World) (actionId : String)
    (at_ : Instant) (proofs : List MarketActionEvidence) : Attempt World := do
  let request := Request.planAdvance at_ proofs
  if ← w.enginePrior actionId request then pure w
  else do
    let st ← w.stage
    let flows := w.plans.workflows
    refuse (∃ f ∈ flows.values, ∃ t ∈ f.nextAt, t < at_)
      (evidenceMissing "an earlier workflow event must be replayed first")
    let due := dueFlows flows at_
    advanceProven st.value proofs due
    let run ← walk (advanceOne spec proofs at_) ⟨st, w.execution, flows, []⟩ due
    let plans := { w.plans with
      workflows := run.workflows
      history := w.plans.history.set actionId run.history }
    w.publish spec actionId request run.stage run.execution plans at_

/-! ## The end of the day -/

def liveOrders (s : AccountState) (day : Date) : List (String × Order) :=
  s.orders.entries.filter fun e => e.2.tradeDate = day && e.2.status.held

def closingProven (spec : AccountSpec) (x : ExecutionState) (day : Date)
    (at_ : Instant) (cursors : Dict String MarketCursor)
    (rules : List MarketRule) (order : Order) : Attempt Unit := do
  refuse (order.marketRule ∉ rules)
    (evidenceMissing "DAY expiry rule differs from the live order rule")
  let close := spec.zone.combine day order.marketRule.closingAuction.stop
  let cursor ← need (cursors.get? order.security) (missingKey order.security)
  let incomplete := evidenceMissing
    "DAY expiry lacks complete closing-auction execution"
  let capture ← need
    (x.queues.get? (order.security ++ ":" ++ cursor.streamId)) incomplete
  refuse (at_ ≠ plusMillis close spec.execution.receiptLatencyMs ∨
      capture.session ≠ .closing ∨
      capture.lastSequence ≠ cursor.afterSequence ∨
      capture.lastSequence ≠ capture.captureEndSequence ∨
      capture.processedAt ≠ close) incomplete

def lastClose (spec : AccountSpec) (day : Date) (rules : List MarketRule) :
    Option Instant :=
  (rules.map fun r => spec.zone.combine day r.closingAuction.stop).max?

/-- The checks of `expire_day` on its day and instant. -/
def expiryProven (spec : AccountSpec) (w : World) (day : Date) (at_ : Instant)
    (rules : List MarketRule) : Attempt Unit := do
  refuse (day ∉ spec.tradingDates ∨ rules = [] ∨ (∃ r ∈ rules, ¬ r.covers day) ∨
      some at_ ≠ (lastClose spec day rules).map fun t =>
        plusMillis t spec.execution.receiptLatencyMs)
    (evidenceMissing
      "DAY expiry needs the fixed effective market close and receipt boundary")
  refuse (∃ f ∈ w.plans.workflows.values, f.tradeDate = day ∧
      ∃ t ∈ f.nextAt, t < at_)
    (evidenceMissing "earlier workflow events cannot be skipped by DAY expiry")
  refuse (day ∈ w.plans.expiredDays) (conflict "DAY expiry already processed")

def Workflow.expire (day : Date) (f : Workflow) : Workflow :=
  if f.tradeDate = day ∧ f.nextAt.isSome = true then
    { f with
      state := .dayExpired
      nextAt := none
      reason := some "DAY_expiry" }
  else f

/-- `plans.expire_day(day, cursors, at=…, market_rules=…, action_id=…)` -/
def expireDay (spec : AccountSpec) (w : World) (actionId : String) (day : Date)
    (cursors : Dict String MarketCursor) (at_ : Instant)
    (rules : List MarketRule) : Attempt World := do
  let request := Request.planDayExpiry day at_ cursors rules
  if ← w.enginePrior actionId request then pure w
  else do
    let st ← w.stage
    expiryProven spec w day at_ rules
    let live := liveOrders st.value day
    refuse ((∃ k ∈ cursors.keys, k ∉ live.map fun e => e.2.security) ∨
        ∃ e ∈ live, e.2.security ∉ cursors.keys)
      (evidenceMissing
        "DAY expiry needs a complete closing cursor for every live security")
    walk (fun _ e => closingProven spec w.execution day at_ cursors rules e.2) ()
      live
    let st ← walk (fun (st : Staged) e => st.run spec (actionId ++ ":" ++ e.1)
      (.release e.1 .dayExpired at_)) st live
    let plans := { w.plans with
      workflows := w.plans.workflows.map fun _ f => f.expire day
      expiredDays := w.plans.expiredDays ++ [day] }
    w.publish spec actionId request st w.execution plans at_

end Ahunter.Sim
