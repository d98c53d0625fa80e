import Ahunter.Sim.World

/-!
# The execution engine

Orders enter the simulated market through `acceptance`, the one predicate
that every ingress path applies, and are filled a minute at a time against a
share budget that all executors draw on. A minute is executed whole: the live
orders of its security are taken in order of acceptance, each fills at the
worst price of the bar as far as the budget reaches, and the minute is closed
whether or not anything filled.
-/

namespace Ahunter.Sim

open Ahunter.Lib

def exchangeRejected (message : String) : Failure := ⟨.exchangeRejected, message⟩

/-! ## Acceptance -/

def OrderStatus.opposing : OrderStatus → Bool
  | .reserved | .partFilled | .cancelPending | .pendingAcceptance => true
  | _ => false

def availableShares (z : Zone) (s : AccountState) (security : String)
    (at_ : Instant) : ℤ :=
  (s.stockLots.entries.filter fun e => disposable z at_ security e.2).map
    (fun e => e.2.quantity - stockFrozen s.orders e.1) |>.sum

/-- The quantity rules of `_acceptance`. -/
def acceptableQuantity (z : Zone) (order : Reservation)
    (proof : AcceptanceEvidence) (s : AccountState) (at_ : Instant) :
    Attempt Unit := do
  let rule := order.marketRule
  refuse (order.quantity > rule.maximumOrderQuantity ∨
      order.quantity % rule.fillIncrement ≠ 0)
    (exchangeRejected
      "order quantity violates maximum or executable share precision")
  match order.side with
  | .buy =>
      refuse (order.quantity < rule.buyMinimum ∨
          (order.quantity - rule.buyMinimum) % rule.buyIncrement ≠ 0)
        (exchangeRejected "buy quantity violates the effective minimum/increment")
  | .sell =>
      refuse ((order.quantity < proof.sellMinimum ∨
            order.quantity % proof.sellIncrement ≠ 0) ∧
          (proof.sellRemainderPolicy ≠ .entireAvailableRemainder ∨
            order.quantity ≠ availableShares z s order.security at_))
        (exchangeRejected
          "sell quantity lacks a valid entire-remainder exception")

def AcceptanceEvidence.cage (proof : AcceptanceEvidence) : Side → Option ℚ
  | .buy => proof.buyCageUpper
  | .sell => proof.sellCageLower

/-- The price cage rules of `_acceptance` at the exchange. -/
def acceptableCage (order : Reservation) (proof : AcceptanceEvidence) :
    Attempt Unit := do
  let rule := order.marketRule
  let required := rule.priceCageFraction.isSome ∨ rule.priceCageTicks.isSome
  let cage := proof.cage order.side
  refuse (required ∧ cage = none)
    (evidenceMissing "applicable price cage needs its historical reference bound")
  refuse (¬ required ∧ (proof.buyCageUpper.isSome ∨ proof.sellCageLower.isSome))
    (evidenceMissing "unexpected price cage evidence")
  refuse (∃ c ∈ cage, (order.side = .buy ∧ order.limitPrice > c) ∨
      (order.side = .sell ∧ order.limitPrice < c))
    (exchangeRejected "limit price violates the historical price cage")

/-- `_acceptance(order, proof, state, at, zone, exchange=…)` -/
def acceptance (spec : AccountSpec) (order : Reservation)
    (proof : AcceptanceEvidence) (s : AccountState) (at_ : Instant)
    (exchange : Bool) : Attempt Unit := do
  let rule := order.marketRule
  refuse (∃ old ∈ s.orders.values, old.security = order.security ∧
      old.side ≠ order.side ∧ old.status.opposing = true)
    (exchangeRejected "opposing live orders on the same security conflict")
  refuse (proof.security ≠ order.security ∨ proof.at_ ≠ at_)
    (evidenceMissing
      "acceptance evidence has a different security or effective instant")
  refuse (spec.visible proof.availability ⟨at_, at_⟩ = false)
    (evidenceMissing "acceptance evidence was unavailable")
  refuse (¬ rule.covers (spec.zone.date at_))
    (evidenceMissing "market rule does not cover acceptance")
  refuse (exchange = true ∧ ¬ ∃ span ∈ rule.acceptOrders,
      span.start ≤ spec.zone.time at_ ∧ spec.zone.time at_ < span.stop)
    (exchangeRejected "market does not accept orders at this instant")
  boundsProven proof.priceBounds rule
  refuse (offTick order.limitPrice rule.tick ∨
      proof.priceBounds.contains order.limitPrice = false)
    (exchangeRejected "limit price violates tick or daily bounds")
  if exchange then acceptableCage order proof else pure ()
  acceptableQuantity spec.zone order proof s at_

def proofFor (proofs : List AcceptanceEvidence) (security : String) :
    Attempt AcceptanceEvidence :=
  need (proofs.find? fun p => p.security = security) (missingKey security)

def newAccepted (at_ : Instant) (priority : ℕ) (proof : AcceptanceEvidence)
    (receipt : Option Instant) : Accepted where
  acceptedAt := at_
  priority := priority
  acceptanceSourceHash := proof.sourceHash
  receiptAvailableAt := receipt
  queuePositions := Dict.empty

def ExecutionState.enter (x : ExecutionState) (orderId : String) (at_ : Instant)
    (proof : AcceptanceEvidence) (receipt : Option Instant) : ExecutionState :=
  { x with
    orders := x.orders.set orderId (newAccepted at_ x.nextPriority proof receipt)
    nextPriority := x.nextPriority + 1 }

def proofsExact (proofs : List AcceptanceEvidence) (securities : List String) :
    Prop :=
  (proofs.map AcceptanceEvidence.security).Nodup ∧
    (∀ p ∈ proofs, p.security ∈ securities) ∧
    ∀ s ∈ securities, s ∈ proofs.map AcceptanceEvidence.security

instance (proofs : List AcceptanceEvidence) (securities : List String) :
    Decidable (proofsExact proofs securities) :=
  inferInstanceAs (Decidable (_ ∧ _ ∧ _))

/-- `engine.accept_batch(orders, evidence, at=…, action_id=…)` -/
def acceptBatch (spec : AccountSpec) (w : World) (actionId : String)
    (orders : List Reservation) (proofs : List AcceptanceEvidence)
    (at_ : Instant) : Attempt World := do
  let request := Request.executionAccept orders proofs at_
  if ← w.enginePrior actionId request then pure w
  else do
    refuse (¬ proofsExact proofs (orders.map Reservation.security))
      (evidenceMissing
        "acceptance needs unambiguous evidence for exactly the submitted securities")
    let st ← w.stage
    walk (fun _ order => do
        refuse (w.execution.reservedOrderIds.contains order.orderId = true)
          (conflict "order identity is reserved by an accepted phase plan")
        let proof ← proofFor proofs order.security
        acceptance spec order proof st.value at_ true) () orders
    let st ← st.run spec (actionId ++ ":reserve") (.reserveBatch orders at_)
    let execution ← walk (fun x order => do
        let proof ← proofFor proofs order.security
        pure (x.enter order.orderId at_ proof none)) w.execution orders
    w.publish spec actionId request st execution w.plans at_

/-! ## The shared share budget -/

def capacityTotal (rule : MarketRule) (volume : ℕ) (rate : ℚ) : ℤ :=
  ⌊volume * rate / rule.fillIncrement⌋ * rule.fillIncrement

/-- `capacity_for(state, security, start, volume, rule, rate, source_hash)` -/
def capacityFor (x : ExecutionState) (security : String) (start : Instant)
    (volume : ℕ) (rule : MarketRule) (rate : ℚ) (sourceHash : String) :
    Attempt (ExecutionState × Capacity) := do
  let total := capacityTotal rule volume rate
  let fresh : Capacity := ⟨volume, total, 0, rule, sourceHash⟩
  let capacity := (x.liquidity.get? (minuteKey security start)).getD fresh
  refuse (capacity.historicalVolume ≠ volume ∨ capacity.total ≠ total ∨
      capacity.marketRule ≠ rule ∨ capacity.sourceHash ≠ sourceHash)
    (evidenceMissing
      "shared minute capacity has conflicting historical evidence")
  pure ({ x with
    liquidity := x.liquidity.set (minuteKey security start) capacity }, capacity)

/-- `value // increment * increment` -/
def roundDown (value increment : ℤ) : ℤ := value / increment * increment

def ExecutionState.consume (x : ExecutionState) (key : MinuteKey)
    (quantity : ℤ) : Attempt ExecutionState := do
  let capacity ← need (x.liquidity.get? key) (missingKey key.1)
  let capacity := { capacity with used := capacity.used + quantity }
  pure { x with liquidity := x.liquidity.set key capacity }

/-! ## A minute -/

structure MinuteOrder where
  orderId : String
  order : Order
  accepted : Accepted
  eligible : Bool

def minuteProven (spec : AccountSpec) (e : MinuteEvidence) : Attempt Unit := do
  let start := e.bar.intervalStart
  let stop := e.bar.intervalEnd
  let rule := e.marketRule
  let day := spec.zone.date start
  refuse (stop - start ≠ rule.minuteSeconds * 1000000 ∨
      spec.zone.time start % 60000000 ≠ 0 ∨ day ≠ spec.zone.date stop ∨
      ¬ rule.covers day ∨ day ∉ spec.sessions ∨
      exchangeOf e.security ≠ rule.exchange.toList)
    (evidenceMissing
      "minute interval, market identity or historical rule is invalid")
  refuse (¬ ∃ span ∈ rule.continuous, spec.zone.combine day span.start ≤ start ∧
      start < stop ∧ stop ≤ spec.zone.combine day span.stop)
    (evidenceMissing
      "non-continuous minute requires queue/auction execution evidence")
  refuse (spec.visible e.availability ⟨stop, stop⟩ = false ∨
      e.availability.eventAt ≠ stop ∨ e.corporateActionsComplete = false)
    (evidenceMissing "complete minute/status/corporate evidence is unavailable")
  boundsProven e.priceBounds rule
  refuse (∃ p ∈ [e.bar.opening, e.bar.high, e.bar.low, e.bar.closing],
      offTick p rule.tick ∨ e.priceBounds.contains p = false)
    (evidenceMissing "historical prices contradict tick or daily price bounds")
  refuse (e.trading = .suspended ∧ e.bar.volume ≠ 0)
    (evidenceMissing "suspension evidence contradicts nonzero traded volume")
  refuse (e.trading = .haltedForPart ∨ e.queueRequiredReasons ≠ [])
    (evidenceMissing "scenario requires complete queue/event-order replay")

def limitTouched (e : MinuteEvidence) (side : Side) : Prop :=
  (side = .buy ∧ ∃ u ∈ e.priceBounds.upper, e.bar.high ≥ u) ∨
    (side = .sell ∧ ∃ l ∈ e.priceBounds.lower, e.bar.low ≤ l)

instance (e : MinuteEvidence) (side : Side) : Decidable (limitTouched e side) :=
  inferInstanceAs (Decidable (_ ∨ _))

def collectOrder (spec : AccountSpec) (e : MinuteEvidence) (x : ExecutionState)
    (acc : List MinuteOrder) (entry : String × Order) :
    Attempt (List MinuteOrder) := do
  let (identity, order) := entry
  if order.security ≠ e.security ∨ order.status.executable = false then pure acc
  else do
    let accepted ← need (x.orders.get? identity) (evidenceMissing
      "live order lacks a proven exchange acceptance/priority")
    refuse (order.tradeDate ≠ spec.zone.date e.bar.intervalStart)
      (evidenceMissing "prior DAY order has not been expired")
    refuse (order.marketRule ≠ e.marketRule)
      (evidenceMissing "minute rule differs from the order rule")
    let eligible := accepted.acceptedAt < e.bar.intervalStart
    refuse (order.status = .cancelPending)
      (evidenceMissing "cancel/fill competition requires proven event order")
    refuse (eligible ∧ e.trading ≠ .suspended ∧ limitTouched e order.side)
      (evidenceMissing "price-limit scenario requires queue evidence")
    pure (acc ++ [⟨identity, order, accepted, eligible⟩])

/-- `(accepted_at, priority)` -/
def acceptedBefore (a b : MinuteOrder) : Prop :=
  toLex (a.accepted.acceptedAt, a.accepted.priority)
    ≤ toLex (b.accepted.acceptedAt, b.accepted.priority)

instance : DecidableRel acceptedBefore :=
  fun _ _ => inferInstanceAs (Decidable (_ ≤ _))

def minutePrice (spec : AccountSpec) (e : MinuteEvidence) : Side → ℚ
  | .buy => e.bar.high + e.marketRule.tick * spec.execution.minuteSlippageTicks
  | .sell => e.bar.low - e.marketRule.tick * spec.execution.minuteSlippageTicks

def noFillReason (e : MinuteEvidence) (o : MinuteOrder) (price : ℚ)
    (quantity : ℤ) : Option String :=
  if o.eligible = false then some "incomplete_submission_minute"
  else if e.trading = .suspended then some "suspended"
  else if price ≤ 0 ∨ e.priceBounds.contains price = false ∨
      (o.order.side = .buy ∧ price > o.order.limitPrice) ∨
      (o.order.side = .sell ∧ price < o.order.limitPrice) then
    some "limit_or_market_bound"
  else if quantity = 0 then some "shared_capacity_exhausted"
  else none

structure MinuteRun where
  stage : Staged
  execution : ExecutionState
  results : List MinuteResult

def minuteOne (spec : AccountSpec) (actionId : String) (e : MinuteEvidence)
    (acc : MinuteRun) (o : MinuteOrder) : Attempt MinuteRun := do
  let key := minuteKey e.security e.bar.intervalStart
  let capacity ← need (acc.execution.liquidity.get? key) (missingKey key.1)
  let price := minutePrice spec e o.order.side
  let remaining := o.order.remaining
  let quantity := roundDown (min remaining (capacity.total - capacity.used))
    e.marketRule.fillIncrement
  match noFillReason e o price quantity with
  | some reason => pure { acc with results := acc.results ++
      [⟨o.orderId, .modelNoFill, some reason, 0, none, minuteModelRef,
        o.accepted.acceptedAt, o.accepted.priority⟩] }
  | none => do
      let stage ← acc.stage.run spec (actionId ++ ":" ++ o.orderId)
        (.fill o.orderId quantity price e.bar.intervalEnd)
      let execution ← acc.execution.consume key quantity
      let status := if quantity = remaining then FillStatus.filled
        else .partFilled
      pure { stage := stage
             execution := execution
             results := acc.results ++ [⟨o.orderId, status, none, quantity,
               some price, minuteModelRef, o.accepted.acceptedAt,
               o.accepted.priority⟩] }

/-- `engine.advance_minute(evidence, action_id=…)` -/
def advanceMinute (spec : AccountSpec) (w : World) (actionId : String)
    (e : MinuteEvidence) : Attempt World := do
  let request := Request.executionMinute e
  if ← w.enginePrior actionId request then pure w
  else do
    minuteProven spec e
    let st ← w.stage
    let key := minuteKey e.security e.bar.intervalStart
    refuse (w.execution.minutes.contains key = true) (conflict
      "minute already consumed; retries must retain their original action identity")
    let orders ← walk (collectOrder spec e w.execution) []
      st.value.orders.entries
    let (x, _) ← capacityFor w.execution e.security e.bar.intervalStart
      e.bar.volume e.marketRule spec.execution.participationRate e.sourceHash
    refuse ((x.routes.get? key).getD .minute ≠ .minute)
      (conflict "minute liquidity is already routed through queue replay")
    let x := { x with routes := x.routes.set key .minute }
    let run ← walk (minuteOne spec actionId e) ⟨st, x, []⟩
      (orders.insertionSort acceptedBefore)
    let record : MinuteRecord := {
      evidence := e
      actionId := actionId
      results := run.results
      formalReady := false }
    let x := { run.execution with
      minutes := run.execution.minutes.set key record }
    w.publish spec actionId request run.stage x w.plans e.bar.intervalEnd

end Ahunter.Sim
