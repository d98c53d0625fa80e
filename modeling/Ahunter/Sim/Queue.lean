import Ahunter.Sim.Execution

/-!
# Queue replay

A complete capture of one security's historical queue is replayed event by
event: adds, cancellations and trades change a book that is only ever
history, and at each trade the simulated orders that would have stood before
the historical participant fill out of the trade's shares, as far as the
minute's budget reaches. A replay may stop at any proven prefix of the
capture and be taken up again from the book it left.
-/

namespace Ahunter.Sim

open Ahunter.Lib

/-! ## The historical book -/

abbrev Book := Dict String QueueOrder

/-- Queue identities that have been used, as the keys of a dictionary. -/
abbrev Seen := Dict String Unit

/-- `_rank(order, virtual=…, stable=…)`: price, then time, then history
before simulation. -/
abbrev Rank := ℚ ×ₗ ℤ ×ₗ ℕ ×ₗ ℕ

def rank (side : Side) (price : ℚ) (priority : ℤ) (virtual stable : ℕ) : Rank :=
  let signed := match side with
    | .buy => -price
    | .sell => price
  toLex (signed, toLex (priority, toLex (virtual, stable)))

def QueueOrder.rank (o : QueueOrder) : Rank :=
  Sim.rank o.side o.price o.priority 0 0

/-- The two participants of a historical trade. -/
structure Matched where
  buy : QueueOrder
  sell : QueueOrder
deriving DecidableEq

def Matched.on (m : Matched) : Side → QueueOrder
  | .buy => m.buy
  | .sell => m.sell

def QueueOrder.reaches (o : QueueOrder) (price : ℚ) : Bool :=
  match o.side with
  | .buy => price ≤ o.price
  | .sell => o.price ≤ price

def overtaken (book : Book) (participant : QueueOrder) (price : ℚ) : Prop :=
  ∃ o ∈ book.values, o.side = participant.side ∧ o.reaches price = true ∧
    o.rank < participant.rank

instance (book : Book) (participant : QueueOrder) (price : ℚ) :
    Decidable (overtaken book participant price) :=
  inferInstanceAs (Decidable (∃ o ∈ book.values, _))

def takeFrom (book : Book) (o : QueueOrder) (key : String) (amount : ℤ) : Book :=
  if o.quantity - amount = 0 then book.erase key
  else book.set key { o with quantity := o.quantity - amount }

/-- The book and the used identities, and the trade an event was. -/
structure Replayed where
  book : Book
  seen : Seen
  matched : Option Matched

/-- `_historical_event(book, seen, event)` -/
def historicalEvent (book : Book) (seen : Seen) (e : QueueEvent) :
    Attempt Replayed := do
  match e.eventType with
  | .add => do
      refuse (seen.contains e.orderId = true)
        (evidenceMissing "historical queue identity was reused")
      pure ⟨book.set e.orderId ⟨e.orderId, e.side, e.price, e.quantity, e.sequence⟩,
        seen.set e.orderId (), none⟩
  | .cancel => do
      let old ← adequate
      refuse (old.price ≠ e.price)
        (evidenceMissing "historical cancellation price differs from its order")
      pure ⟨takeFrom book old e.orderId e.quantity, seen, none⟩
  | .trade => do
      let old ← adequate
      let insufficient := evidenceMissing
        "historical match counterparty is missing or insufficient"
      let contraId ← need e.contraOrderId insufficient
      let contra ← need (book.get? contraId) insufficient
      refuse (contra.side = e.side ∨ contra.quantity < e.quantity) insufficient
      let m : Matched := match old.side with
        | .buy => ⟨old, contra⟩
        | .sell => ⟨contra, old⟩
      refuse (¬ (m.sell.price ≤ e.price ∧ e.price ≤ m.buy.price))
        (evidenceMissing
          "historical match violates its participants' limit prices")
      refuse (overtaken book m.buy e.price ∨ overtaken book m.sell e.price)
        (evidenceMissing "historical matching violates proven price/time priority")
      pure ⟨takeFrom (takeFrom book contra contraId e.quantity) old e.orderId
        e.quantity, seen, some m⟩
where
  /-- The resting order a consumption is against. -/
  adequate : Attempt QueueOrder := do
    let refusal := evidenceMissing
      "historical queue consumption has no adequate matching order"
    let old ← need (book.get? e.orderId) refusal
    refuse (old.side ≠ e.side ∨ old.quantity < e.quantity) refusal
    pure old

/-! ## Validating a capture -/

abbrev Volumes := Dict ℤ QueueVolume

def volumeWindows (spec : AccountSpec) (e : QueueMarket) : Attempt Volumes :=
  walk (fun acc v => do
    refuse (v.stop - v.start ≠ 60000000 ∨ spec.zone.time v.start % 60000000 ≠ 0 ∨
        v.start < e.capture.startAt ∨ v.stop > e.capture.endAt ∨
        acc.contains v.start = true ∨ v.sourceRef ∉ e.sourceRefs)
      (evidenceMissing
        "queue capacity needs complete source-bound minute windows")
    pure (acc.set v.start v)) Dict.empty e.volumes

structure EventScan where
  previous : Instant
  counts : Dict ℤ ℤ

def scanTick (e : QueueMarket) (volumes : Volumes) (acc : EventScan)
    (tick : QueueTick) : Attempt EventScan := do
  let event := tick.event
  refuse (tick.at_ < acc.previous ∨ tick.at_ > e.capture.endAt ∨
      event.session ≠ e.capture.session ∨ offTick event.price e.marketRule.tick ∨
      e.priceBounds.contains event.price = false)
    (evidenceMissing "queue event time/session/price is inconsistent")
  match event.eventType with
  | .trade => do
      let unproven := evidenceMissing
        "historical match has no proven shared-capacity window"
      let key ← need tick.capacityStart unproven
      let volume ← need (volumes.get? key) unproven
      refuse (¬ (key ≤ tick.at_ ∧ tick.at_ ≤ volume.stop)) unproven
      refuse (e.auction.isSome = true ∧ (tick.at_ ≠ e.capture.endAt ∨
          e.auction.bind AuctionPayload.price ≠ some event.price))
        (evidenceMissing "auction match contradicts fixed historical price/time")
      pure ⟨tick.at_, acc.counts.set key
        ((acc.counts.get? key).getD 0 + event.quantity)⟩
  | _ => do
      refuse (tick.capacityStart.isSome = true ∨ event.contraOrderId.isSome = true)
        (evidenceMissing
          "non-match event has unexpected match/capacity fields")
      pure { acc with previous := tick.at_ }

def routeBound (e : QueueMarket) : Option ℚ :=
  if e.routeReason = .limitBuy then e.priceBounds.upper else e.priceBounds.lower

def routeProven (spec : AccountSpec) (e : QueueMarket) : Attempt Unit := do
  let start := e.capture.startAt
  let stop := e.capture.endAt
  let rule := e.marketRule
  let day := spec.zone.date start
  match e.capture.session with
  | .continuous => do
      refuse (e.auction.isSome = true ∨
          e.routeReason ∉ [.limitBuy, .limitSell, .cancelMatchOrdering])
        (evidenceMissing "continuous queue needs its fixed price-limit route")
      refuse (¬ ∃ i ∈ rule.continuous, spec.zone.combine day i.start ≤ start ∧
          start < stop ∧ stop ≤ spec.zone.combine day i.stop)
        (evidenceMissing "queue range leaves the continuous session")
      refuse (routeBound e = none ∧ e.routeReason ≠ .cancelMatchOrdering)
        (evidenceMissing "price-limit routing lacks a market limit")
  | session => do
      let expected := match session with
        | .opening => RouteReason.openingAuction
        | .closing => .closingAuction
        | _ => .resumptionAuction
      refuse (e.routeReason ≠ expected ∨
          e.auction.map AuctionPayload.session ≠ some session)
        (evidenceMissing "auction route needs its fixed historical match result")
      let interval := if session = .opening then rule.openingAuction
        else rule.closingAuction
      refuse (session ≠ .resume ∧ (start ≠ spec.zone.combine day interval.start ∨
          stop ≠ spec.zone.combine day interval.stop))
        (evidenceMissing "auction capture does not span the whole matching session")

def QueueMarket.trades (e : QueueMarket) : List QueueEvent :=
  (e.events.map QueueTick.event).filter fun v => v.eventType = .trade

/-- `_validate(evidence, zone)`: the capture's minute windows. -/
def validateCapture (spec : AccountSpec) (e : QueueMarket) : Attempt Volumes := do
  let span := e.capture
  let rule := e.marketRule
  let day := spec.zone.date span.startAt
  refuse (span.complete = false ∨ e.snapshot.complete = false ∨
      e.snapshot.session ≠ span.session ∨ e.corporateActionsComplete = false ∨
      e.snapshot.lastSequence ≠ span.startSequence - 1 ∨
      day ≠ spec.zone.date span.endAt ∨
      exchangeOf e.security ≠ rule.exchange.toList ∨ ¬ rule.covers day)
    (evidenceMissing
      "complete queue snapshot, range, market and corporate coverage required")
  refuse (spec.visible e.availability ⟨span.endAt, span.endAt⟩ = false ∨
      e.availability.eventAt ≠ span.endAt)
    (evidenceMissing "complete queue capture is unavailable at its stated end")
  boundsProven e.priceBounds rule
  routeProven spec e
  refuse (¬ (e.snapshot.orders.map QueueOrder.orderId).Nodup ∨
      ¬ (e.snapshot.orders.map QueueOrder.priority).Nodup)
    (evidenceMissing "initial queue order identity/priority is ambiguous")
  refuse (∃ o ∈ e.snapshot.orders, o.priority > e.snapshot.lastSequence ∨
      offTick o.price rule.tick ∨ e.priceBounds.contains o.price = false)
    (evidenceMissing "snapshot priority, tick or daily bound is inconsistent")
  refuse (e.events.map (fun t => t.event.sequence) ≠
      (List.range (span.endSequence + 1 - span.startSequence).toNat).map
        fun i => span.startSequence + i)
    (evidenceMissing "queue event sequence has a gap or duplicate")
  let volumes ← volumeWindows spec e
  let scan ← walk (scanTick e volumes) ⟨span.startAt, Dict.empty⟩ e.events
  refuse (∃ v ∈ volumes.values, (scan.counts.get? v.start).getD 0 ≠ v.shares)
    (evidenceMissing
      "queue matches do not reconcile to complete historical minute volume")
  let side := if e.routeReason = .limitBuy then Side.buy else .sell
  refuse (span.session = .continuous ∧ e.routeReason ≠ .cancelMatchOrdering ∧
      (¬ ∃ v ∈ e.trades, some v.price = routeBound e) ∧
      ¬ (e.trades = [] ∧ ∃ o ∈ e.snapshot.orders,
          o.side = side ∧ some o.price = routeBound e))
    (evidenceMissing
      "historical capture does not establish the pinned price-limit route")
  refuse (∃ a ∈ e.auction, scan.counts.sum (fun _ n => n) ≠ a.volume)
    (evidenceMissing "auction match volume does not reconcile")
  pure volumes

def snapshotBook (s : QueueSnapshot) : Book :=
  Dict.ofList (s.orders.map fun o => (o.orderId, o))

def seenOf (book : Book) : Seen := book.map fun _ _ => ()

def replayHistory (book : Book) (seen : Seen) (events : List QueueTick) :
    Attempt (Book × Seen) :=
  walk (fun acc tick => do
    let r ← historicalEvent acc.1 acc.2 tick.event
    pure (r.book, r.seen)) (book, seen) events

/-- An auction that left two orders it could have matched. -/
def uncrossed (book : Book) (price : Option ℚ) : Prop :=
  ∃ b ∈ book.values, b.side = .buy ∧ ∃ s ∈ book.values, s.side = .sell ∧
    match price with
    | none => s.price ≤ b.price
    | some p => p ≤ b.price ∧ s.price ≤ p

instance (book : Book) (price : Option ℚ) : Decidable (uncrossed book price) := by
  unfold uncrossed
  cases price <;> exact inferInstance

def captureReplays (e : QueueMarket) : Attempt Unit := do
  let original := snapshotBook e.snapshot
  let (book, _) ← replayHistory original (seenOf original) e.events
  refuse (∃ a ∈ e.auction, uncrossed book a.price) (evidenceMissing
    "auction capture leaves unconsumed executable historical orders")

/-! ## The simulated side -/

structure ReplayStart where
  last : ℤ
  book : Book
  seen : Seen

/-- Resume a capture, or open the next one of its stream. -/
def replayStart (e : QueueMarket) (old : Option QueueState) (at_ : Instant)
    (sequence : ℤ) : Attempt ReplayStart := do
  let original := snapshotBook e.snapshot
  let opened := e.capture.startSequence - 1
  match old with
  | none => pure ⟨opened, original, seenOf original⟩
  | some q =>
      if q.market = e then do
        refuse (sequence < q.lastSequence ∨ at_ < q.processedAt)
          (conflict "queue prefix regressed")
        refuse (sequence = q.lastSequence ∧ at_ = q.processedAt)
          (conflict "queue prefix already processed; preserve its action identity")
        pure ⟨q.lastSequence, q.book, q.seen⟩
      else do
        refuse (q.processedAt ≠ e.capture.startAt ∨ q.lastSequence ≠ opened ∨
            q.book ≠ original)
          (evidenceMissing
            "next queue capture lacks continuous historical book/sequence coverage")
        pure ⟨opened, original, q.seen⟩

structure QueueEntrant where
  orderId : String
  accepted : Accepted
  position : QueuePosition
  before : ℤ

def activeOrders (s : AccountState) (security : String) : List (String × Order) :=
  s.orders.entries.filter fun e =>
    e.2.security = security && e.2.status.executable

def pinPosition (spec : AccountSpec) (e : QueueEvidence) (streamKey : String)
    (at_ : Instant) (acc : ExecutionState × List QueueEntrant)
    (entry : String × Order) : Attempt (ExecutionState × List QueueEntrant) := do
  let (x, entrants) := acc
  let (identity, order) := entry
  let unproven := evidenceMissing
    "queue order lacks same-day acceptance and matching rules"
  let position ← need (e.positions.find? fun p => p.orderId = identity)
    (missingKey identity)
  let accepted ← need (x.orders.get? identity) unproven
  refuse (order.tradeDate ≠ spec.zone.date e.capture.startAt ∨
      order.marketRule ≠ e.marketRule) unproven
  refuse (order.status = .cancelPending ∧
      ¬ ∃ t ∈ order.cancelEffectiveAt, at_ ≤ t)
    (evidenceMissing
      "simulated cancel confirmation ordering must be supplied by the plan executor")
  refuse (position.afterSequence > e.capture.endSequence ∨
      ∃ t ∈ e.events, (t.event.sequence ≤ position.afterSequence ∧
          t.at_ > accepted.acceptedAt) ∨
        (t.event.sequence > position.afterSequence ∧ t.at_ < accepted.acceptedAt))
    (evidenceMissing "insertion position contradicts the order acceptance time")
  let marker : QueueMarker := ⟨position.afterSequence, position.sourceRef⟩
  let pinned := (accepted.queuePositions.get? streamKey).getD marker
  refuse (pinned ≠ marker) (conflict
    "accepted order cannot improve or change its proven queue position")
  let accepted := { accepted with
    queuePositions := accepted.queuePositions.set streamKey pinned }
  pure ({ x with orders := x.orders.set identity accepted },
    entrants ++ [⟨identity, accepted, position, order.filledQuantity⟩])

def openMinute (spec : AccountSpec) (e : QueueMarket) (x : ExecutionState)
    (entry : ℤ × QueueVolume) : Attempt ExecutionState := do
  let (start, volume) := entry
  let key := minuteKey e.security start
  let (x, _) ← capacityFor x e.security start volume.shares e.marketRule
    spec.execution.participationRate volume.sourceHash
  refuse ((x.routes.get? key).getD .queue ≠ .queue ∨ x.minutes.contains key = true)
    (conflict "historical minute already consumed by another execution route")
  pure { x with routes := x.routes.set key .queue }

def candidateRank (s : AccountState) (tick : QueueTick) (m : Matched)
    (q : QueueEntrant) : Attempt (Option Rank) := do
  let event := tick.event
  let order ← need (s.orders.get? q.orderId) (missingKey q.orderId)
  if order.status = .filled ∨ event.sequence ≤ q.position.afterSequence ∨
      tick.at_ < q.accepted.acceptedAt then pure none
  else if (order.side = .buy ∧ event.price > order.limitPrice) ∨
      (order.side = .sell ∧ event.price < order.limitPrice) then pure none
  else
    let r := rank order.side order.limitPrice q.position.afterSequence 1
      q.accepted.priority
    if r < (m.on order.side).rank then pure (some r) else pure none

/-- The simulated orders a trade reaches, best claim first. -/
def candidates (s : AccountState) (tick : QueueTick) (m : Matched)
    (entrants : List QueueEntrant) : Attempt (List (Rank ×ₗ String)) := do
  let found ← walk (fun acc q => do
      match ← candidateRank s tick m q with
      | none => pure acc
      | some r => pure (acc ++ [toLex (r, q.orderId)])) [] entrants
  pure (found.insertionSort (· ≤ ·))

/-- The loop of a replay over its events, so far. -/
structure QueueRun where
  stage : Staged
  execution : ExecutionState
  book : Book
  seen : Seen
  fills : List QueueFill
  audit : List QueueAudit

structure TradeRun where
  stage : Staged
  execution : ExecutionState
  available : ℤ
  fills : List QueueFill

def fillCandidate (spec : AccountSpec) (actionId : String) (rule : MarketRule)
    (key : MinuteKey) (tick : QueueTick) (acc : TradeRun) (identity : String) :
    Attempt TradeRun := do
  let event := tick.event
  let order ← need (acc.stage.value.orders.get? identity) (missingKey identity)
  let quantity := roundDown (min acc.available order.remaining) rule.fillIncrement
  if quantity = 0 then pure acc
  else do
    let stage ← acc.stage.run spec
      (spec.queueFillId actionId event.sequence identity)
      (.fill identity quantity event.price tick.at_)
    let execution ← acc.execution.consume key quantity
    pure { stage := stage
           execution := execution
           available := acc.available - quantity
           fills := acc.fills ++
             [⟨identity, event.sequence, tick.at_, event.price, quantity⟩] }

def replayTick (spec : AccountSpec) (actionId : String) (e : QueueMarket)
    (entrants : List QueueEntrant) (acc : QueueRun) (tick : QueueTick) :
    Attempt QueueRun := do
  let event := tick.event
  let r ← historicalEvent acc.book acc.seen event
  let acc := { acc with
    book := r.book
    seen := r.seen }
  match r.matched with
  | none => pure { acc with audit := acc.audit ++
      [.passed event.sequence event.eventType event.orderId event.quantity] }
  | some m => do
      let start ← need tick.capacityStart (missingKey "capacity_start")
      let key := minuteKey e.security start
      let capacity ← need (acc.execution.liquidity.get? key) (missingKey key.1)
      let reached ← candidates acc.stage.value tick m entrants
      let available := min event.quantity (capacity.total - capacity.used)
      let t ← walk (fillCandidate spec actionId e.marketRule key tick)
        ⟨acc.stage, acc.execution, available, acc.fills⟩ (reached.map Prod.snd)
      pure { acc with
        stage := t.stage
        execution := t.execution
        fills := t.fills
        audit := acc.audit ++
          [.traded event.sequence event.quantity (reached.map Prod.snd)] }

/-- What a replay reports of one order. -/
def queueOutcome (s : AccountState) (q : QueueEntrant) : Attempt QueueOutcome := do
  let order ← need (s.orders.get? q.orderId) (missingKey q.orderId)
  let quantity := order.filledQuantity - q.before
  pure {
    orderId := q.orderId
    quantity := quantity
    status := if order.status = .filled then .filled
      else if quantity ≠ 0 then .partFilled else .modelNoFill
    reason := if quantity ≠ 0 then none
      else some "proven_queue_or_capacity_not_executable"
    model := queueModelRef }

/-- The events of a prefix that are still to be replayed. -/
def pendingTicks (e : QueueMarket) (last sequence : ℤ) : List QueueTick :=
  e.events.filter fun t => last < t.event.sequence && t.event.sequence ≤ sequence

/-- `security + ":" + stream_id` -/
def QueueMarket.streamKey (e : QueueMarket) : String :=
  e.security ++ ":" ++ e.streamId

def prefixProven (spec : AccountSpec) (e : QueueMarket) (at_ : Instant)
    (sequence : ℤ) : Attempt Unit := do
  let span := e.capture
  refuse (¬ (span.startSequence - 1 ≤ sequence ∧ sequence ≤ span.endSequence) ∨
      ¬ (span.startAt ≤ at_ ∧ at_ ≤ span.endAt) ∨
      spec.zone.date span.startAt ∉ spec.sessions)
    (evidenceMissing "invalid queue replay prefix")
  refuse (∃ t ∈ e.events, (t.event.sequence ≤ sequence ∧ t.at_ > at_) ∨
      (t.event.sequence > sequence ∧ t.at_ < at_))
    (evidenceMissing "queue prefix time and exchange sequence disagree")
  refuse (spec.execution.queueSlippageTicks ≠ 0) (evidenceMissing
    "fixed historical queue prices require zero extra queue slippage")

def positionsProven (e : QueueEvidence) (old : Option QueueState)
    (s : AccountState) : Attempt Unit := do
  let active := activeOrders s e.security
  let named := e.positions.map QueuePosition.orderId
  refuse (¬ named.Nodup ∨ ∃ p ∈ e.positions, p.sourceRef ∉ e.sourceRefs)
    (evidenceMissing "queue insertion ordering lacks unique source provenance")
  refuse ((∃ i ∈ named, i ∉ active.map Prod.fst) ∨
      (∃ a ∈ active, a.1 ∉ named) ∨
      ∃ a ∈ active, ∃ b ∈ active, a.2.side ≠ b.2.side)
    (evidenceMissing
      "queue insertion proof must cover exactly the live, nonconflicting orders")
  refuse (e.routeReason = .cancelMatchOrdering ∧
      ¬ ((∃ o ∈ s.orders.values, o.security = e.security ∧
          (o.status = .cancelPending ∨ o.status = .cancelEffective)) ∨
        ∃ q ∈ old, q.market = e.toQueueMarket))
    (evidenceMissing
      "cancel/match route requires an actual pending simulated cancellation")

/-- `QueueReplay.advance(evidence, action_id=…, through_at=…,
through_sequence=…)`. The capture itself goes to the artifact store. -/
def queueAdvance (spec : AccountSpec) (w : World) (actionId : String)
    (e : QueueEvidence) (throughAt : Option Instant)
    (throughSequence : Option ℤ) : Attempt World := do
  let span := e.capture
  let volumes ← validateCapture spec e.toQueueMarket
  let at_ := throughAt.getD span.endAt
  let sequence := throughSequence.getD span.endSequence
  let request := Request.executionQueue e at_ sequence
  if ← w.enginePrior actionId request then pure w
  else do
    prefixProven spec e.toQueueMarket at_ sequence
    let st ← w.stage
    let streamKey := e.streamKey
    let old := w.execution.queues.get? streamKey
    let start ← replayStart e.toQueueMarket old at_ sequence
    captureReplays e.toQueueMarket
    positionsProven e old st.value
    let (x, entrants) ← walk (pinPosition spec e streamKey at_)
      (w.execution, []) (activeOrders st.value e.security)
    let x ← walk (openMinute spec e.toQueueMarket) x
      (volumes.entries.filter fun v => v.1 ≤ at_)
    let run ← walk (replayTick spec actionId e.toQueueMarket entrants)
      ⟨st, x, start.book, start.seen, [], []⟩
      (pendingTicks e.toQueueMarket start.last sequence)
    let results ← walk (fun acc q => do
        let r ← queueOutcome run.stage.value q
        pure (acc ++ [r])) [] entrants
    let processed : QueueState := {
      market := e.toQueueMarket
      sourceHash := e.sourceHash
      lastSequence := sequence
      processedAt := at_
      book := run.book
      seen := run.seen
      session := span.session
      captureEndSequence := span.endSequence
      captureEndAt := span.endAt }
    let result : QueueResult := {
      fills := run.fills
      results := results
      historicalAudit := run.audit
      market := e.toQueueMarket
      formalReady := false }
    let x := { run.execution with
      queues := run.execution.queues.set streamKey processed
      queueResults := run.execution.queueResults.set actionId result }
    w.publish spec actionId request run.stage x w.plans at_

end Ahunter.Sim
