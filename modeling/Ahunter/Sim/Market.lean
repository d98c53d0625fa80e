import Ahunter.Lib.Dict
import Ahunter.Lib.Rounding
import Ahunter.Sim.Time
import Mathlib.Data.String.Basic

/-!
# Market rules, fee schedules and evidence

The sealed inputs the simulated market runs on: the rules of a board, the
fee schedule of an exchange, the terms of corporate events and the proofs
that accompany an order or a minute. Each is the part of the contract the
simulator reads. Prices and money are exact rationals, share counts are
integers, and a bound the contract type enforces is a field of the structure,
so that a value the validator would refuse cannot be built.
-/

namespace Ahunter.Sim

/-! ## Refusals

Every way an operation can refuse is a class of exception and the text it
was raised with. The classes matter because two callers catch some of them
and let the others through. -/

inductive ErrorKind
  | accountUnavailable
  | corporateUnsupported
  | settlementUnsupported
  | executionEvidenceMissing
  | exchangeRejected
  | feeUnavailable
  | valuationUnsupported
  | conflict
  | fenced
  | missing
  | valueError
  | keyError
deriving DecidableEq, Repr

/-- The subclasses of `AccountUnavailable`. -/
def ErrorKind.isAccountUnavailable : ErrorKind → Bool
  | .accountUnavailable | .corporateUnsupported | .settlementUnsupported
  | .executionEvidenceMissing | .exchangeRejected | .valuationUnsupported => true
  | _ => false

structure Failure where
  kind : ErrorKind
  message : String
deriving DecidableEq, Repr

abbrev Attempt (α : Type) := Except Failure α

/-- `value[key]` of a dictionary that has no such key. -/
def missingKey (key : String) : Failure := ⟨.keyError, key⟩

export Ahunter.Lib (Dict refuse need walk)

/-! ## Rules and fees -/

inductive Side
  | buy
  | sell
deriving DecidableEq, Repr

/-- A span of local time, `start` in and `stop` out. -/
structure Interval where
  start : Clock
  stop : Clock
deriving DecidableEq, Repr

inductive Board
  | main
  | star
  | chinext
deriving DecidableEq, Repr

/-- The effective rules of one board. -/
@[ext] structure MarketRule where
  exchange : String
  board : Board
  st : Bool
  effectiveFrom : Date
  effectiveTo : Date
  tick : ℚ
  buyMinimum : ℤ
  buyIncrement : ℤ
  maximumOrderQuantity : ℤ
  fillIncrement : ℤ
  priceLimitFraction : Option ℚ
  priceCageFraction : Option ℚ
  priceCageTicks : Option ℤ
  boughtSharesSellLag : ℕ
  soldCashReuseLag : ℕ
  soldCashWithdrawLag : ℕ
  continuous : List Interval
  openingAuction : Interval
  closingAuction : Interval
  acceptOrders : List Interval
  cancelForbidden : List Interval
  minuteSeconds : ℕ
  tick_pos : 0 < tick
  buyIncrement_pos : 0 < buyIncrement
  fillIncrement_pos : 0 < fillIncrement

instance : DecidableEq MarketRule := fun _ _ => decidable_of_iff _ MarketRule.ext_iff.symm

/-- `rule.effective_from <= day <= rule.effective_to` -/
def MarketRule.covers (r : MarketRule) (day : Date) : Prop :=
  r.effectiveFrom ≤ day ∧ day ≤ r.effectiveTo

instance (r : MarketRule) (day : Date) : Decidable (r.covers day) :=
  inferInstanceAs (Decidable (_ ∧ _))

inductive FeeSide
  | both
  | only (side : Side)
deriving DecidableEq, Repr

/-- `side in {"both", side}` -/
def FeeSide.covers : FeeSide → Side → Bool
  | .both, _ => true
  | .only s, t => s = t

structure FeeItem where
  feeId : String
  side : FeeSide
  rate : ℚ
  minimum : ℚ
  quantum : ℚ
  includedInCommission : Bool
  rate_nonneg : 0 ≤ rate
  minimum_nonneg : 0 ≤ minimum
deriving DecidableEq

structure FeeSchedule where
  exchange : String
  effectiveFrom : Date
  effectiveTo : Date
  items : List FeeItem
deriving DecidableEq

structure ExecutionSettings where
  participationRate : ℚ
  minuteSlippageTicks : ℕ
  queueSlippageTicks : ℕ
  orderLatencyMs : ℕ
  cancelLatencyMs : ℕ
  receiptLatencyMs : ℕ
  commissionRate : ℚ
  minimumCommission : ℚ
  commissionIncludesExchangeFees : Bool
  feeQuantum : ℚ
  participation_pos : 0 < participationRate
  participation_le : participationRate ≤ 1
  commissionRate_nonneg : 0 ≤ commissionRate
  minimumCommission_nonneg : 0 ≤ minimumCommission

def minuteModelRef : String := "conservative_minute_v1"
def queueModelRef : String := "queue_replay_v1"

/-! ## Securities and orders -/

/-- `security[:2]` -/
def exchangeOf (security : String) : List Char := security.toList.take 2

/-- `re.fullmatch(r"(?:SH|SZ)[0-9]{6}", security)` -/
def canonicalSecurity (security : String) : Bool :=
  (exchangeOf security = ['S', 'H'] || exchangeOf security = ['S', 'Z'])
    && (security.toList.drop 2).length = 6
    && (security.toList.drop 2).all Char.isDigit

/-- A requested order, before the ledger has anything on it. -/
@[ext] structure Reservation where
  orderId : String
  security : String
  side : Side
  quantity : ℤ
  limitPrice : ℚ
  marketRule : MarketRule
  feeSchedule : FeeSchedule
  quantity_pos : 0 < quantity
  limitPrice_pos : 0 < limitPrice

instance : DecidableEq Reservation := fun _ _ => decidable_of_iff _ Reservation.ext_iff.symm

/-! ## Visibility -/

structure Availability where
  eventAt : Instant
  evidence : String
deriving DecidableEq

structure Boundary where
  eventCutoff : Instant
  snapshotAt : Instant
deriving DecidableEq

/-! ## Research phases -/

inductive PhaseKind
  | initialResearch
  | auction
  | postauction
  | postmarket
deriving DecidableEq, Repr

structure PhaseDefinition where
  phaseId : String
  kind : PhaseKind
  tradingDate : Option Date
  boundary : Boundary
  planReceivedAt : Option Instant
deriving DecidableEq

/-! ## Market evidence -/

structure PriceBounds where
  lower : Option ℚ
  upper : Option ℚ
  complete : lower.isSome = upper.isSome
  ordered : ∀ l ∈ lower, ∀ u ∈ upper, l ≤ u
deriving DecidableEq

/-- `bounds.contains(price)` -/
def PriceBounds.contains (b : PriceBounds) (price : ℚ) : Bool :=
  match b.lower, b.upper with
  | some l, some u => l ≤ price && price ≤ u
  | _, _ => true

inductive RemainderPolicy
  | noException
  | entireAvailableRemainder
deriving DecidableEq, Repr

/-- The proof that accompanies an order to the exchange. -/
@[ext] structure AcceptanceEvidence where
  security : String
  at_ : Instant
  availability : Availability
  sourceRefs : List String
  sourceHash : String
  priceBounds : PriceBounds
  buyCageUpper : Option ℚ
  sellCageLower : Option ℚ
  sellMinimum : ℤ
  sellIncrement : ℤ
  sellRemainderPolicy : RemainderPolicy
  sellMinimum_pos : 0 < sellMinimum
  sellIncrement_pos : 0 < sellIncrement

instance : DecidableEq AcceptanceEvidence := fun _ _ => decidable_of_iff _ AcceptanceEvidence.ext_iff.symm

inductive Trading
  | active
  | suspended
  | haltedForPart
deriving DecidableEq, Repr

/-- One historical minute bar. -/
structure PricePayload where
  intervalStart : Instant
  intervalEnd : Instant
  opening : ℚ
  high : ℚ
  low : ℚ
  closing : ℚ
  volume : ℕ
deriving DecidableEq

structure MinuteEvidence where
  security : String
  marketRule : MarketRule
  bar : PricePayload
  priceBounds : PriceBounds
  availability : Availability
  sourceRefs : List String
  sourceHash : String
  trading : Trading
  corporateActionsComplete : Bool
  queueRequiredReasons : List String
deriving DecidableEq

/-- `price % tick` has a remainder. -/
def offTick (price tick : ℚ) : Prop := (⌊price / tick⌋ : ℚ) ≠ price / tick

instance (price tick : ℚ) : Decidable (offTick price tick) :=
  inferInstanceAs (Decidable (_ ≠ _))

def evidenceMissing (message : String) : Failure :=
  ⟨.executionEvidenceMissing, message⟩

/-- `_bounds_proven(bounds, rule)` -/
def boundsProven (bounds : PriceBounds) (rule : MarketRule) : Attempt Unit := do
  refuse (rule.priceLimitFraction.isNone ≠ bounds.lower.isNone)
    (evidenceMissing "daily price bound evidence contradicts the effective market rule")
  refuse (bounds.lower.isSome ∧
      ((∃ l ∈ bounds.lower, offTick l rule.tick) ∨
        ∃ u ∈ bounds.upper, offTick u rule.tick))
    (evidenceMissing "price bounds are not aligned to the effective tick")

end Ahunter.Sim
