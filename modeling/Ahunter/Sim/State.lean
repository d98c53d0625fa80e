import Ahunter.Sim.Fees
import Mathlib.Tactic.Simps.Basic

/-!
# The ledger's state

One simulated account is one record: cash and stock held in lots, the holds
and reserves that freeze parts of them, orders by identity, and what
corporate events have promised or withheld. The record is the `account`
projection of a test, so a dictionary in it is kept in key order, which is
the order the canonical encoding gives it back in.

`AccountSpec` is everything the ledger reads of the sealed specification.
Two of its components belong to code outside this repository's sources and
stay parameters: the visibility test of an availability record, and the
digest that names a staged fill or market action.
-/

namespace Ahunter.Sim

open Ahunter.Lib

/-! ## Dividend tax policies -/

@[ext] structure TaxBand where
  upToMonths : Option ℕ
  rate : ℚ
  rate_nonneg : 0 ≤ rate
  rate_le : rate ≤ 1

instance : DecidableEq TaxBand := fun _ _ => decidable_of_iff _ TaxBand.ext_iff.symm

/-- Ordered finite bands and a final unlimited one. -/
structure DividendTaxPolicy where
  policyRef : String
  effectiveFrom : Date
  effectiveTo : Date
  availability : Availability
  bands : List TaxBand
  ordered : (bands.dropLast.filterMap TaxBand.upToMonths).Pairwise (· < ·)
  finite : ∀ b ∈ bands.dropLast, b.upToMonths.isSome
  unlimited : bands.getLast?.map TaxBand.upToMonths = some none
deriving DecidableEq

/-- `policy.effective_from <= day <= policy.effective_to` -/
def DividendTaxPolicy.covers (p : DividendTaxPolicy) (day : Date) : Prop :=
  p.effectiveFrom ≤ day ∧ day ≤ p.effectiveTo

instance (p : DividendTaxPolicy) (day : Date) : Decidable (p.covers day) :=
  inferInstanceAs (Decidable (_ ∧ _))

/-! ## Terms of corporate events -/

inductive CorporateKind
  | dividend
  | bonus
  | split
  | rights
  | delisting
  | merger
deriving DecidableEq, Repr

structure CorporateAction where
  actionId : String
  kind : CorporateKind
  recordDate : Date
  effectiveDate : Date
  paymentDate : Option Date
  tradableDate : Option Date
  cashPerShare : Option ℚ
  sharesRatio : Option ℚ
deriving DecidableEq

inductive HoldingStart
  | inherit
  | effectiveDate
deriving DecidableEq, Repr

@[ext] structure CorporateTerms where
  security : String
  action : CorporateAction
  sourceRefs : List String
  availability : Availability
  marketRule : MarketRule
  recordAt : Stamp
  effectiveAt : Stamp
  paymentAt : Option Stamp
  tradableAt : Option Stamp
  taxablePerOldShare : ℚ
  taxPolicy : Option DividendTaxPolicy
  newShareHoldingStart : Option HoldingStart
  sourceRefs_ne : sourceRefs ≠ []
  taxable_nonneg : 0 ≤ taxablePerOldShare
  dates_agree : recordAt.date = action.recordDate ∧
    effectiveAt.date = action.effectiveDate ∧
    recordAt.instant < effectiveAt.instant
  optional_dates_agree : paymentAt.map Stamp.date = action.paymentDate ∧
    tradableAt.map Stamp.date = action.tradableDate
  payment_after : ∀ p ∈ paymentAt, effectiveAt.instant ≤ p.instant
  tradable_after : ∀ t ∈ tradableAt, effectiveAt.instant ≤ t.instant
  dividend_terms : action.kind = .dividend →
    action.cashPerShare = some taxablePerOldShare ∧ paymentAt.isSome
  share_terms : action.kind = .bonus ∨ action.kind = .split →
    (∃ r ∈ action.sharesRatio, 0 < r) ∧ tradableAt.isSome ∧
      newShareHoldingStart.isSome
  taxed_has_policy : 0 < taxablePerOldShare → taxPolicy.isSome

instance : DecidableEq CorporateTerms := fun _ _ => decidable_of_iff _ CorporateTerms.ext_iff.symm

@[ext] structure LotConsideration where
  lotId : String
  oldQuantity : ℤ
  cashAmount : ℚ
  replacementQuantity : ℤ
  replacementCostBasis : Option ℚ
  oldQuantity_pos : 0 < oldQuantity
  cashAmount_nonneg : 0 ≤ cashAmount
  replacement_nonneg : 0 ≤ replacementQuantity
  basis_iff : replacementQuantity ≠ 0 ↔ replacementCostBasis.isSome
  basis_nonneg : ∀ b ∈ replacementCostBasis, 0 ≤ b

instance : DecidableEq LotConsideration := fun _ _ => decidable_of_iff _ LotConsideration.ext_iff.symm

inductive SettlementKind
  | delisting
  | merger
  | cashReplacement
deriving DecidableEq, Repr

inductive TaxTreatment
  | dispose
  | carry
  | noOutstandingObligations
deriving DecidableEq, Repr

structure OwnedLot where
  quantity : ℤ
  acquiredOn : Date
  costBasis : ℚ
  acquiredSequence : ℕ
deriving DecidableEq

structure SettlementTerms where
  settlementId : String
  kind : SettlementKind
  security : String
  effectiveAt : Instant
  sourceRefs : List String
  availability : Availability
  entitlementSnapshot : Dict String OwnedLot
  allocations : List LotConsideration
  cashPaymentAt : Option Instant
  replacementSecurity : Option String
  replacementTradableAt : Option Instant
  holdingStart : HoldingStart
  dividendTaxTreatment : TaxTreatment
  sourceRefs_ne : sourceRefs ≠ []
  allocations_ne : allocations ≠ []
  canonical : canonicalSecurity security = true ∧
    ∀ s ∈ replacementSecurity, canonicalSecurity s = true
  payment_after : ∀ t ∈ cashPaymentAt, effectiveAt ≤ t
  tradable_after : ∀ t ∈ replacementTradableAt, effectiveAt ≤ t
  lots_nodup : (allocations.map LotConsideration.lotId).Nodup
  cash_iff : (allocations.map LotConsideration.cashAmount).sum ≠ 0 ↔
    cashPaymentAt.isSome
  shares_iff : (allocations.map LotConsideration.replacementQuantity).sum ≠ 0 ↔
    (replacementSecurity.isSome ∧ replacementTradableAt.isSome)
  unused : (allocations.map LotConsideration.replacementQuantity).sum = 0 →
    replacementSecurity = none ∧ replacementTradableAt = none
  retires : replacementSecurity ≠ some security
  cents : ∀ a ∈ allocations, rounded a.cashAmount = a.cashAmount
  carry_pure : dividendTaxTreatment = .carry →
    (allocations.map LotConsideration.cashAmount).sum = 0 ∧
      holdingStart = .inherit
  dispose_cash : dividendTaxTreatment = .dispose →
    (allocations.map LotConsideration.replacementQuantity).sum = 0
deriving DecidableEq

/-! ## Lots, orders and claims -/

structure CashLot where
  lotId : String
  amount : ℚ
  availableAt : Instant
  reusableOn : Date
  withdrawableOn : Date
deriving DecidableEq

structure CashHold where
  amount : ℚ
  heldUntil : Instant
  reason : String
deriving DecidableEq

structure StockLot where
  security : String
  quantity : ℤ
  acquiredOn : Date
  sellableOn : Date
  availableAt : Instant
  costBasis : ℚ
  acquiredSequence : ℕ
deriving DecidableEq

inductive OrderStatus
  | reserved
  | partFilled
  | cancelPending
  | pendingAcceptance
  | cancelEffective
  | rejectedPendingReceipt
  | filled
  | cancelConfirmed
  | dayExpired
  | rejected
deriving DecidableEq, Repr

/-- `status in RESOURCE_HELD_ORDER_STATES` -/
def OrderStatus.held : OrderStatus → Bool
  | .reserved | .partFilled | .cancelPending | .pendingAcceptance
  | .cancelEffective | .rejectedPendingReceipt => true
  | .filled | .cancelConfirmed | .dayExpired | .rejected => false

/-- `status in {"reserved", "partial", "cancel_pending"}` -/
def OrderStatus.executable : OrderStatus → Bool
  | .reserved | .partFilled | .cancelPending => true
  | _ => false

theorem OrderStatus.held_of_executable {s : OrderStatus}
    (h : s.executable = true) : s.held = true := by
  cases s <;> simp_all [executable, held]

structure Order extends Reservation where
  tradeDate : Date
  filledQuantity : ℤ
  turnover : ℚ
  cashReserved : ℚ
  stockReserved : List (String × ℤ)
  fees : Dict String ℚ
  status : OrderStatus
  cancelEffectiveAt : Option Instant
deriving DecidableEq

/-- `order["stock_reserved"].get(lot_id, 0)` -/
def Order.frozenOn (o : Order) (lotId : String) : ℤ :=
  ((o.stockReserved.filter fun e => e.1 = lotId).map Prod.snd).sum

/-- What is still to be filled. -/
def Order.remaining (o : Order) : ℤ := o.quantity - o.filledQuantity

structure Obligation where
  actionId : String
  lotId : String
  acquiredOn : Date
  sharesRemaining : ℤ
  basisRemaining : ℚ
  taxExact : ℚ
  assessed : ℚ
  reserved : ℚ
  policy : DividendTaxPolicy
deriving DecidableEq

structure Entitlement where
  lotId : String
  quantity : ℤ
  acquiredOn : Date
deriving DecidableEq

inductive CorporateStatus
  | registered
  | notParticipating
  | applied
  | paid
deriving DecidableEq, Repr

structure CorporateItem where
  terms : CorporateTerms
  entitlements : List Entitlement
  applied : Bool
  distributed : Bool
  deferredTax : ℚ
  status : CorporateStatus
deriving DecidableEq

inductive ReceivableKind
  | dividend
  | specialSettlement
deriving DecidableEq, Repr

structure Receivable where
  amount : ℚ
  navAmount : ℚ
  qualified : Bool
  kind : ReceivableKind
  sourceRef : String
  detached : Option Bool
  grossAmount : Option ℚ
  withheldTax : Option ℚ
deriving DecidableEq

inductive SettlementStatus
  | receivable
  | settled
deriving DecidableEq, Repr

structure SettlementItem where
  terms : SettlementTerms
  status : SettlementStatus
  replacementLotIds : List String
  receivableId : Option String
deriving DecidableEq

structure AccountState where
  cashLots : List CashLot
  cashHolds : List CashHold
  stockLots : Dict String StockLot
  orders : Dict String Order
  receivables : Dict String Receivable
  payables : ℚ
  liabilities : ℚ
  feesAssessed : Dict String ℚ
  corporateActions : Dict String CorporateItem
  nextLotSequence : ℕ
  dividendObligations : Dict String Obligation
  dividendTaxReserve : ℚ
  deferredDividendTax : ℚ
  specialSettlements : Dict String SettlementItem
  sealedThrough : Option Instant
  lastEventAt : Option Instant
  visibleAt : Option Instant
deriving DecidableEq

/-- `state["orders"][order_id] = order` -/
@[simps] def AccountState.setOrder (s : AccountState) (id : String) (o : Order) :
    AccountState :=
  { s with orders := s.orders.set id o }

/-! ## The journal -/

inductive Entry
  | cash (amount : ℚ) (reason : Option String)
  | cashFrozen (amount : ℚ) (orderId : String)
  | shares (security : String) (quantity : ℤ) (actionId : Option String)
  | sharesFrozen (quantity : ℤ) (security orderId : String)
  | payables (amount : ℚ) (reason : Option String)
  | receivables (amount : ℚ) (settlementId : Option String)
  | feeExpense (key : String) (amount : ℚ) (orderId : String)
  | resourcesReleased (orderId : String) (reason : OrderStatus)
  | dividendEntitlement (amount : ℚ) (actionId : String)
  | dividendTaxReserve (amount : ℚ)
  | dividendTaxAssessed (amount : ℚ) (obligationId : String)
deriving DecidableEq

/-! ## The sealed specification -/

inductive Permission
  | board (board : Board)
  | st
deriving DecidableEq, Repr

structure Position where
  security : String
  quantity : ℤ
  acquiredOn : Date
  costBasis : ℚ
  quantity_pos : 0 < quantity
  costBasis_nonneg : 0 ≤ costBasis

structure AccountSpec where
  zone : Zone
  sessions : List Date
  tradingDates : List Date
  initialAsOf : Instant
  initialCash : ℚ
  initialPositions : List Position
  entitlements : List Permission
  voluntarySubscription : Bool
  execution : ExecutionSettings
  schedule : List PhaseDefinition
  mainActorId : String
  /-- `availability.visible(boundary)` -/
  visible : Availability → Boundary → Bool
  /-- `"queue-fill:" + digest([action_id, sequence, order_id])` -/
  queueFillId : String → ℤ → String → String
  /-- `"state:" + digest([order_id, status, at, reason])` -/
  orderStateId : String → OrderStatus → Instant → String → String
  sessions_sorted : sessions.Pairwise (· < ·)
  trading_subset : ∀ d ∈ tradingDates, d ∈ sessions
  trading_ne : tradingDates ≠ []
  initialCash_nonneg : 0 ≤ initialCash
  positions_nodup : (initialPositions.map Position.security).Nodup

end Ahunter.Sim
