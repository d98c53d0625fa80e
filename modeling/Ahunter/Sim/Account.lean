import Ahunter.Sim.Tax

/-!
# The simulated account

The operations of the ledger, each a function from the account's state to
the state it leaves and the journal entries it writes, or a refusal. Nothing
here decides when a state becomes durable: what an operation returns is still
to be sealed in time, taxed and validated by `prepareState`, and then either
published as an event of its own or staged with others.

Cash is spent and shares are sold lot by lot in a fixed order, so the two
loops at the heart of the module, `spendLoop` and `takeFifo`, are both greedy
passes over a sorted row of lots.
-/

namespace Ahunter.Sim

open Ahunter.Lib

def accountUnavailable (message : String) : Failure :=
  ⟨.accountUnavailable, message⟩

def conflict (message : String) : Failure := ⟨.conflict, message⟩

def invalidValue (message : String) : Failure := ⟨.valueError, message⟩

/-- What an operation asks to have committed. -/
structure Outcome where
  state : AccountState
  at_ : Instant
  visibleAt : Instant
  entries : List Entry

/-- `lagged_day(day, lag, sessions)` -/
def laggedDay (day : Date) (lag : ℕ) (sessions : List Date) : Attempt Date := do
  refuse (day ∉ sessions)
    (accountUnavailable "account event is outside the pinned trading calendar")
  need sessions[sessions.idxOf day + lag]?
    (accountUnavailable "settlement calendar coverage is insufficient")

/-! ## Cash -/

/-- `_cash(state)` -/
def cashTotal (s : AccountState) : ℚ := (s.cashLots.map CashLot.amount).sum

/-- `_eligible_cash(lot, at)` -/
def eligibleCash (z : Zone) (at_ : Instant) (lot : CashLot) : Bool :=
  lot.availableAt ≤ at_ && lot.reusableOn ≤ z.date at_

/-- `_eligible_cash(lot, at, withdrawal=True)` -/
def withdrawableCash (z : Zone) (at_ : Instant) (lot : CashLot) : Bool :=
  lot.availableAt ≤ at_ && lot.withdrawableOn ≤ z.date at_

def cashIn (p : CashLot → Bool) (lots : List CashLot) : ℚ :=
  ((lots.filter p).map CashLot.amount).sum

def liquidCash (z : Zone) (s : AccountState) (at_ : Instant) : ℚ :=
  cashIn (eligibleCash z at_) s.cashLots

def heldCash (holds : List CashHold) (at_ : Instant) : ℚ :=
  ((holds.filter fun h => h.heldUntil > at_).map CashHold.amount).sum

/-- `_frozen_cash(state, at)` -/
def frozenCash (s : AccountState) (at_ : Instant) : ℚ :=
  s.orders.sum (fun _ o => o.cashReserved) + heldCash s.cashHolds at_

/-- `_available_cash(state, at)` -/
def availableCash (z : Zone) (s : AccountState) (at_ : Instant) : ℚ :=
  max 0 (liquidCash z s at_ - frozenCash s at_ - s.payables - s.liabilities)

/-- The order `_spend_cash` visits the lots in: proceeds that cannot be
withdrawn yet first, then by age, then by name. -/
def spendBefore (z : Zone) (at_ : Instant) (a b : CashLot × ℕ) : Prop :=
  let key := fun l : CashLot =>
    toLex ((withdrawableCash z at_ l).toNat, toLex (l.availableAt, l.lotId))
  key a.1 ≤ key b.1

instance (z : Zone) (at_ : Instant) : DecidableRel (spendBefore z at_) :=
  fun _ _ => inferInstanceAs (Decidable (_ ≤ _))

/-- The loop of `_spend_cash`: the lots as it leaves them and what is still
to be found. -/
def spendLoop (z : Zone) (at_ : Instant) :
    ℚ → List (CashLot × ℕ) → List (CashLot × ℕ) × ℚ
  | remaining, [] => ([], remaining)
  | remaining, (lot, i) :: rest =>
      if eligibleCash z at_ lot then
        let used := min lot.amount remaining
        let spent := ({ lot with amount := lot.amount - used }, i)
        if remaining - used = 0 then (spent :: rest, 0)
        else
          let (rest', left) := spendLoop z at_ (remaining - used) rest
          (spent :: rest', left)
      else
        let (rest', left) := spendLoop z at_ remaining rest
        ((lot, i) :: rest', left)

def cannotFund : Failure := accountUnavailable
  "confirmed reusable cash cannot fund the accepted execution"

/-- `_spend_cash(state, amount, at)`. The lots are visited in spending order
and keep their places in the ledger. -/
def spendCash (z : Zone) (lots : List CashLot) (amount : ℚ) (at_ : Instant) :
    Attempt (List CashLot) := do
  let visited := lots.zipIdx.insertionSort (spendBefore z at_)
  let (spent, left) := spendLoop z at_ amount visited
  refuse (left ≠ 0) cannotFund
  pure ((spent.insertionSort fun a b => a.2 ≤ b.2).map Prod.fst)

/-! ## Shares -/

/-- `_stock_eligible(lot, at)` -/
def stockEligible (z : Zone) (at_ : Instant) (lot : StockLot) : Bool :=
  lot.availableAt ≤ at_ && lot.sellableOn ≤ z.date at_

/-- `_stock_frozen(state, lot_id)` -/
def stockFrozen (orders : Dict String Order) (lotId : String) : ℤ :=
  orders.sum fun _ o => o.frozenOn lotId

/-- `(lot["acquired_on"], lot["acquired_sequence"], lot_id)` -/
def fifoKey (e : String × StockLot) : ℤ ×ₗ ℕ ×ₗ String :=
  toLex (e.2.acquiredOn, toLex (e.2.acquiredSequence, e.1))

def fifoLots (lots : Dict String StockLot) : List (String × StockLot) :=
  lots.entries.insertionSort fun a b => fifoKey a ≤ fifoKey b

/-- Lots an order of `security` can be filled from at an instant. -/
def disposable (z : Zone) (at_ : Instant) (security : String)
    (lot : StockLot) : Bool :=
  lot.security = security && stockEligible z at_ lot

def takeFifo (usable : StockLot → Bool) (frozen : String → ℤ) :
    ℤ → List (String × StockLot) → List (String × ℤ) × ℤ
  | remaining, [] => ([], remaining)
  | remaining, (lotId, lot) :: rest =>
      if usable lot then
        let quantity := min remaining (lot.quantity - frozen lotId)
        if remaining - quantity = 0 then ([(lotId, quantity)], 0)
        else
          let (taken, left) := takeFifo usable frozen (remaining - quantity) rest
          ((lotId, quantity) :: taken, left)
      else takeFifo usable frozen remaining rest

/-! ## Sealing a state in time -/

inductive Operation
  | opening
  | checkpoint
  | other
deriving DecidableEq, Repr

/-- `_validate(state, at)` -/
def validate (s : AccountState) (at_ : Instant) : Attempt Unit := do
  refuse ((∃ lot ∈ s.cashLots, lot.amount < 0) ∨ s.payables < 0 ∨
      s.liabilities < 0)
    (conflict "negative cash or invalid liability balance")
  refuse (∃ e ∈ s.stockLots.entries, e.2.quantity < stockFrozen s.orders e.1)
    (conflict "stock reservations exceed owned shares")
  refuse (frozenCash s at_ > cashTotal s)
    (conflict "cash reservation exceeds owned cash")
  refuse (∃ o ∈ s.orders.values, o.cashReserved < 0)
    (conflict "negative order reservation")

/-- `_prepare_state(request, state, at=…, visible_at=…, entries=…)` -/
def prepareState (spec : AccountSpec) (operation : Operation) (o : Outcome) :
    Attempt Outcome := do
  refuse (o.at_ < spec.initialAsOf ∨ o.visibleAt < o.at_)
    (accountUnavailable "account event time precedes its allowed boundary")
  refuse (∃ t ∈ o.state.sealedThrough, o.at_ ≤ t)
    (accountUnavailable "account replay interval is already sealed")
  refuse (∃ t ∈ o.state.lastEventAt, t > o.at_)
    (conflict "account events must follow proven execution order")
  let sealedThrough := if operation = .other then o.state.sealedThrough
    else some o.at_
  let visibleAt := max o.visibleAt (o.state.visibleAt.getD o.visibleAt)
  let s := { o.state with
    sealedThrough := sealedThrough
    lastEventAt := some o.at_
    visibleAt := some visibleAt }
  let (s, change) ← refreshTaxReserves spec.zone s o.at_
  validate s o.at_
  pure { state := s
         at_ := o.at_
         visibleAt := visibleAt
         entries := if change = 0 then o.entries
           else o.entries ++ [.dividendTaxReserve change] }

/-! ## Opening the account -/

def initialLot (spec : AccountSpec) (opens : Date) (p : Position)
    (sequence : ℕ) : StockLot where
  security := p.security
  quantity := p.quantity
  acquiredOn := p.acquiredOn
  sellableOn := opens
  availableAt := spec.initialAsOf
  costBasis := p.costBasis
  acquiredSequence := sequence

/-- The state `initialize` opens the account with. -/
def initialState (spec : AccountSpec) (opens : Date) : AccountState where
  cashLots := [{
    lotId := "initial"
    amount := spec.initialCash
    availableAt := spec.initialAsOf
    reusableOn := spec.zone.date spec.initialAsOf
    withdrawableOn := spec.zone.date spec.initialAsOf }]
  cashHolds := []
  stockLots := Dict.ofList (spec.initialPositions.zipIdx.map fun (p, i) =>
    ("initial:" ++ p.security, initialLot spec opens p i))
  orders := Dict.empty
  receivables := Dict.empty
  payables := 0
  liabilities := 0
  feesAssessed := Dict.empty
  corporateActions := Dict.empty
  nextLotSequence := spec.initialPositions.length
  dividendObligations := Dict.empty
  dividendTaxReserve := 0
  deferredDividendTax := 0
  specialSettlements := Dict.empty
  sealedThrough := none
  lastEventAt := none
  visibleAt := none

/-- `initialize(action_id=…)` -/
def initializeAccount (spec : AccountSpec) : Attempt Outcome := do
  let opens := spec.tradingDates.head spec.trading_ne
  refuse (∃ p ∈ spec.initialPositions, p.acquiredOn ≥ opens)
    (accountUnavailable "initial holdings require a proven earlier acquisition date")
  pure { state := initialState spec opens
         at_ := spec.initialAsOf
         visibleAt := spec.initialAsOf
         entries := [.cash spec.initialCash (some "initial_capital")] }

/-! ## Reservations -/

def buyReserve (fees : OrderFees) (order : Reservation) : ℚ :=
  rounded (order.limitPrice * order.quantity)
    + fees.total .buy (order.limitPrice * order.quantity)

def storedOrder (spec : AccountSpec) (order : Reservation) (at_ : Instant) :
    Order where
  toReservation := order
  tradeDate := spec.zone.date at_
  filledQuantity := 0
  turnover := 0
  cashReserved := 0
  stockReserved := []
  fees := Dict.empty
  status := .reserved
  cancelEffectiveAt := none

def reservable (spec : AccountSpec) (at_ : Instant) (s : AccountState)
    (order : Reservation) : Attempt OrderFees := do
  let rule := order.marketRule
  let today := spec.zone.date at_
  refuse (∃ item ∈ s.specialSettlements.values,
      item.terms.security = order.security)
    (accountUnavailable "retired security cannot accept new reservations")
  refuse (s.orders.contains order.orderId = true)
    (conflict "order identity already exists")
  refuse (canonicalSecurity order.security = false ∨
      exchangeOf order.security ≠ rule.exchange.toList)
    (accountUnavailable "security identity and market rule disagree")
  refuse (¬ rule.covers today ∨ today ∉ spec.sessions)
    (accountUnavailable "market rule or trading calendar not effective")
  refuse (.board rule.board ∉ spec.entitlements ∨
      (rule.st = true ∧ .st ∉ spec.entitlements))
    (accountUnavailable "account lacks the required security entitlement")
  OrderFees.of spec.execution order.feeSchedule today rule.exchange

def reserveOne (spec : AccountSpec) (at_ : Instant)
    (acc : AccountState × List Entry) (order : Reservation) :
    Attempt (AccountState × List Entry) := do
  let (s, entries) := acc
  let fees ← reservable spec at_ s order
  let stored := storedOrder spec order at_
  match order.side with
  | .buy =>
      let reserve := buyReserve fees order
      refuse (reserve > availableCash spec.zone s at_)
        (accountUnavailable "batch exceeds confirmed available cash")
      let stored := { stored with cashReserved := reserve }
      pure (s.setOrder order.orderId stored,
        entries ++ [.cashFrozen reserve order.orderId])
  | .sell =>
      let (taken, left) := takeFifo (disposable spec.zone at_ order.security)
        (stockFrozen s.orders) order.quantity (fifoLots s.stockLots)
      refuse (left ≠ 0)
        (accountUnavailable "batch exceeds confirmed sellable shares")
      let stored := { stored with stockReserved := taken }
      pure (s.setOrder order.orderId stored,
        entries ++ [.sharesFrozen order.quantity order.security order.orderId])

/-- The checks of `reserve_batch` that do not look at the account. -/
def batchAdmissible (orders : List Reservation) : Attempt Unit := do
  refuse (orders = [] ∨ ¬ (orders.map Reservation.orderId).Nodup)
    (invalidValue "nonempty batch with unique order identities required")
  refuse (∃ a ∈ orders, ∃ b ∈ orders, a.security = b.security ∧ a.side ≠ b.side)
    (accountUnavailable "conflicting same-security sides in one plan")

/-- `reserve_batch(orders, at=…, action_id=…)` -/
def reserveBatch (spec : AccountSpec) (orders : List Reservation)
    (at_ : Instant) (s : AccountState) : Attempt Outcome := do
  let (s, entries) ← walk (reserveOne spec at_) (s, []) orders
  pure { state := s, at_ := at_, visibleAt := at_, entries := entries }

/-! ## Fills -/

/-- An order's shares reassigned by `_reallocate_sell_fifo`. -/
def reassign (z : Zone) (at_ : Instant) (lots : List (String × StockLot))
    (orders : Dict String Order) (orderId : String) :
    Attempt (Dict String Order) := do
  let order ← need (orders.get? orderId) (missingKey orderId)
  let (taken, left) := takeFifo (disposable z at_ order.security)
    (stockFrozen orders) order.remaining lots
  refuse (left ≠ 0) (accountUnavailable
    "FIFO disposal cannot preserve existing share reservations")
  pure (orders.set orderId
    { order with stockReserved := taken.filter fun e => e.2 ≠ 0 })

def reallocated (orders : Dict String Order) (executing : Order)
    (executingId : String) : List String :=
  executingId :: (orders.entries.filter fun e =>
    e.2.security = executing.security && e.2.side = .sell
      && e.2.status.held && e.1 ≠ executingId).map Prod.fst

def clearStock (orders : Dict String Order) (orderId : String) :
    Dict String Order :=
  match orders.get? orderId with
  | none => orders
  | some order => orders.set orderId { order with stockReserved := [] }

/-- `_reallocate_sell_fifo(state, executing_id, at)` -/
def reallocateSellFifo (z : Zone) (s : AccountState) (executingId : String)
    (at_ : Instant) : Attempt AccountState := do
  let executing ← need (s.orders.get? executingId) (missingKey executingId)
  let chosen := reallocated s.orders executing executingId
  let orders ← walk (reassign z at_ (fifoLots s.stockLots))
    (chosen.foldl clearStock s.orders) chosen
  pure { s with orders := orders }

structure Disposal where
  state : AccountState
  stockReserved : List (String × ℤ)
  pending : ℤ
  tax : ℚ
  entries : List Entry

def disposeLots (z : Zone) (at_ : Instant) :
    ℤ → List (String × ℤ) → AccountState → Attempt Disposal
  | pending, [], s => pure ⟨s, [], pending, 0, []⟩
  | pending, (lotId, reserved) :: rest, s => do
      let used := min pending reserved
      let (s, tax, entries) ← assessDisposal z s lotId used at_
      let lot ← need (s.stockLots.get? lotId) (missingKey lotId)
      let lot := { lot with quantity := lot.quantity - used }
      let s := { s with stockLots := s.stockLots.set lotId lot }
      if pending - used = 0 then
        pure ⟨s, (lotId, reserved - used) :: rest, 0, tax, entries⟩
      else do
        let d ← disposeLots z at_ (pending - used) rest s
        pure ⟨d.state, (lotId, reserved - used) :: d.stockReserved, d.pending,
          tax + d.tax, entries ++ d.entries⟩

structure FillTerms where
  actionId : String
  orderId : String
  quantity : ℤ
  at_ : Instant
  order : Order
  fees : OrderFees
  gross : ℚ
  charges : Dict String ℚ
  receipt : Instant

def FillTerms.charge (t : FillTerms) : ℚ := t.charges.sum fun _ v => v

def FillTerms.after (t : FillTerms) : ℚ := t.order.turnover + t.gross

def FillTerms.remaining (t : FillTerms) : ℤ :=
  t.order.quantity - t.order.filledQuantity - t.quantity

def FillTerms.newReserve (t : FillTerms) : ℚ :=
  if t.remaining = 0 then 0
  else rounded (t.order.limitPrice * t.remaining)
    + t.fees.total .buy (t.after + t.order.limitPrice * t.remaining)
    - t.fees.total .buy t.after

/-- The buy branch of `fill`. -/
def fillBuy (spec : AccountSpec) (t : FillTerms) (s : AccountState) :
    Attempt (AccountState × List Entry) := do
  let released := t.order.cashReserved - t.newReserve - t.gross - t.charge
  refuse (released < 0) (conflict "fill exceeds its maximum reserved cost")
  let cashLots ← spendCash spec.zone s.cashLots (t.gross + t.charge) t.at_
  let sellable ← laggedDay (spec.zone.date t.at_)
    t.order.marketRule.boughtSharesSellLag spec.sessions
  let lot : StockLot := {
    security := t.order.security
    quantity := t.quantity
    acquiredOn := spec.zone.date t.at_
    sellableOn := sellable
    availableAt := t.receipt
    costBasis := (t.gross + t.charge) / t.quantity
    acquiredSequence := s.nextLotSequence }
  let order := { t.order with cashReserved := t.newReserve }
  pure ({ s with
      cashLots := cashLots
      cashHolds := s.cashHolds ++
        [⟨released, t.receipt, "unconfirmed_price_improvement"⟩]
      stockLots := s.stockLots.set t.actionId lot
      nextLotSequence := s.nextLotSequence + 1
      orders := s.orders.set t.orderId order },
    [.cash (-t.gross - t.charge) none,
     .shares t.order.security t.quantity none])

def settleProceeds (spec : AccountSpec) (t : FillTerms) (net : ℚ)
    (s : AccountState) : Attempt (AccountState × List Entry) := do
  let today := spec.zone.date t.at_
  if net < 0 then do
    let paid := min (-net) (availableCash spec.zone s t.at_)
    let cashLots ← spendCash spec.zone s.cashLots paid t.at_
    pure ({ s with
        cashLots := cashLots
        payables := s.payables + -net - paid },
      [.payables (-net - paid) none, .cash (-paid) none])
  else if net = 0 then pure (s, [.cash net none])
  else do
    let reusable ← laggedDay today t.order.marketRule.soldCashReuseLag spec.sessions
    let withdrawable ← laggedDay today
      t.order.marketRule.soldCashWithdrawLag spec.sessions
    pure ({ s with cashLots := s.cashLots ++
        [⟨t.actionId, net, t.receipt, reusable, withdrawable⟩] },
      [.cash net none])

/-- The sell branch of `fill`. -/
def fillSell (spec : AccountSpec) (t : FillTerms) (s : AccountState) :
    Attempt (AccountState × List Entry) := do
  let s ← reallocateSellFifo spec.zone s t.orderId t.at_
  let order ← need (s.orders.get? t.orderId) (missingKey t.orderId)
  let d ← disposeLots spec.zone t.at_ t.quantity order.stockReserved s
  refuse (d.pending ≠ 0) (conflict "fill exceeds reserved shares")
  let order := { order with stockReserved := d.stockReserved }
  let s := d.state.setOrder t.orderId order
  let (s, entries) ← settleProceeds spec t (t.gross - t.charge - d.tax) s
  pure (s, d.entries ++ entries ++
    [.shares t.order.security (-t.quantity) none])

def fillSide (spec : AccountSpec) (t : FillTerms) (s : AccountState) :
    Attempt (AccountState × List Entry) :=
  match t.order.side with
  | .buy => fillBuy spec t s
  | .sell => fillSell spec t s

def bookFill (t : FillTerms) (s : AccountState) (order : Order) : AccountState :=
  let status := if t.remaining = 0 then .filled
    else if order.status = .cancelPending then .cancelPending
    else .partFilled
  let order := { order with
    filledQuantity := order.filledQuantity + t.quantity
    turnover := t.after
    fees := t.fees.cumulative t.order.side t.after
    status := status }
  { s with
    orders := s.orders.set t.orderId order
    feesAssessed := t.charges.entries.foldl (fun d e =>
      d.set e.1 ((d.get? e.1).getD 0 + e.2)) s.feesAssessed }

def notExecutable : Failure := accountUnavailable "order is not executable"

def fillTerms (spec : AccountSpec) (actionId orderId : String) (quantity : ℤ)
    (price : ℚ) (at_ : Instant) (s : AccountState) : Attempt FillTerms := do
  let order ← need (s.orders.get? orderId) notExecutable
  refuse (order.status.executable = false) notExecutable
  refuse (spec.zone.date at_ ≠ order.tradeDate ∨ quantity > order.remaining)
    (accountUnavailable "fill is outside the order date or remaining quantity")
  refuse ((order.side = .buy ∧ price > order.limitPrice) ∨
      (order.side = .sell ∧ price < order.limitPrice))
    (accountUnavailable "fill violates the limit price")
  let fees ← OrderFees.of spec.execution order.feeSchedule (spec.zone.date at_)
    order.marketRule.exchange
  let gross := rounded (price * quantity)
  pure {
    actionId := actionId
    orderId := orderId
    quantity := quantity
    at_ := at_
    order := order
    fees := fees
    gross := gross
    charges := fees.incremental order.side order.turnover (order.turnover + gross)
    receipt := plusMillis at_ spec.execution.receiptLatencyMs }

/-- `fill(order_id, quantity=…, price=…, at=…, action_id=…)` -/
def fill (spec : AccountSpec) (actionId orderId : String) (quantity : ℤ)
    (price : ℚ) (at_ : Instant) (s : AccountState) : Attempt Outcome := do
  let t ← fillTerms spec actionId orderId quantity price at_ s
  let (s, entries) ← fillSide spec t s
  let order ← need (s.orders.get? orderId) (missingKey orderId)
  pure { state := bookFill t s order
         at_ := at_
         visibleAt := t.receipt
         entries := entries ++ t.charges.entries.map fun e =>
           .feeExpense e.1 e.2 orderId }

/-! ## Cancellations, releases and housekeeping -/

/-- `cancel_request(order_id, at=…, action_id=…)` -/
def cancelRequest (orderId : String) (at_ : Instant) (s : AccountState) :
    Attempt Outcome := do
  let refusal := accountUnavailable "order cannot request cancellation"
  let order ← need (s.orders.get? orderId) refusal
  refuse (order.status ≠ .reserved ∧ order.status ≠ .partFilled) refusal
  let order := { order with status := .cancelPending }
  pure { state := s.setOrder orderId order
         at_ := at_
         visibleAt := at_
         entries := [] }

/-- `release(order_id, at=…, action_id=…, reason=…)` -/
def release (orderId : String) (at_ : Instant) (reason : OrderStatus)
    (s : AccountState) : Attempt Outcome := do
  let refusal := accountUnavailable "order has no releasable resources"
  let order ← need (s.orders.get? orderId) refusal
  refuse (order.status.held = false) refusal
  refuse (reason = .cancelConfirmed ∧ order.status ≠ .cancelPending ∧
      order.status ≠ .cancelEffective)
    (accountUnavailable "cancellation has not been requested")
  let order := { order with
    cashReserved := 0
    stockReserved := []
    status := reason }
  pure { state := s.setOrder orderId order
         at_ := at_
         visibleAt := at_
         entries := [.resourcesReleased orderId reason] }

/-- The check of `release` on its reason. -/
def releasable (reason : OrderStatus) : Attempt Unit :=
  refuse (reason ≠ .cancelConfirmed ∧ reason ≠ .dayExpired ∧ reason ≠ .rejected)
    (invalidValue "resource release requires a confirmed terminal reason")

/-- `checkpoint(at=…, action_id=…)` -/
def checkpoint (at_ : Instant) (s : AccountState) : Outcome :=
  { state := s, at_ := at_, visibleAt := at_, entries := [] }

/-- What `settle_payables` can pay at an instant. -/
def settleable (z : Zone) (s : AccountState) (at_ : Instant) : ℚ :=
  min (s.payables - s.deferredDividendTax)
    (max 0 (liquidCash z s at_ - frozenCash s at_ - s.liabilities))

/-- `settle_payables(at=…, action_id=…)` -/
def settlePayables (spec : AccountSpec) (at_ : Instant) (s : AccountState) :
    Attempt Outcome := do
  let amount := settleable spec.zone s at_
  let cashLots ← spendCash spec.zone s.cashLots amount at_
  pure { state := { s with
           cashLots := cashLots
           payables := s.payables - amount }
         at_ := at_
         visibleAt := at_
         entries := [.cash (-amount) none, .payables (-amount) none] }

/-- `_order_state(stage, order_id, status, at, …)`: the exchange moved an
order. -/
def orderMarketState (orderId : String) (status : OrderStatus)
    (at_ visibleAt : Instant) (s : AccountState) : Attempt Outcome := do
  let order ← need (s.orders.get? orderId) (missingKey orderId)
  let order := { order with status := status }
  pure { state := s.setOrder orderId order
         at_ := at_
         visibleAt := visibleAt
         entries := [] }

end Ahunter.Sim
