import Ahunter.Sim.State

/-!
# Queue captures and phase plans

The two larger inputs of the simulated market: a complete capture of one
security's historical order queue, and the plan a research phase submits.
-/

namespace Ahunter.Sim

open Ahunter.Lib

/-! ## Queue captures -/

inductive QueueSession
  | opening
  | closing
  | resume
  | continuous
deriving DecidableEq, Repr

inductive QueueEventType
  | add
  | cancel
  | trade
deriving DecidableEq, Repr

structure QueueEvent where
  sequence : ℤ
  session : QueueSession
  eventType : QueueEventType
  orderId : String
  side : Side
  price : ℚ
  quantity : ℤ
  contraOrderId : Option String
deriving DecidableEq

structure QueueTick where
  at_ : Instant
  event : QueueEvent
  capacityStart : Option Instant
deriving DecidableEq

structure QueueRange where
  complete : Bool
  session : QueueSession
  startAt : Instant
  endAt : Instant
  startSequence : ℤ
  endSequence : ℤ
deriving DecidableEq

structure QueueOrder where
  orderId : String
  side : Side
  price : ℚ
  quantity : ℤ
  priority : ℤ
deriving DecidableEq

structure QueueSnapshot where
  complete : Bool
  session : QueueSession
  lastSequence : ℤ
  orders : List QueueOrder
deriving DecidableEq

structure QueuePosition where
  orderId : String
  afterSequence : ℤ
  sourceRef : String
deriving DecidableEq

structure QueueVolume where
  start : Instant
  stop : Instant
  shares : ℕ
  sourceHash : String
  sourceRef : String
deriving DecidableEq

structure AuctionPayload where
  session : QueueSession
  price : Option ℚ
  volume : ℕ
deriving DecidableEq

inductive RouteReason
  | openingAuction
  | closingAuction
  | resumptionAuction
  | limitBuy
  | limitSell
  | cancelMatchOrdering
deriving DecidableEq, Repr

structure QueueMarket where
  security : String
  streamId : String
  marketRule : MarketRule
  priceBounds : PriceBounds
  capture : QueueRange
  snapshot : QueueSnapshot
  events : List QueueTick
  volumes : List QueueVolume
  auction : Option AuctionPayload
  routeReason : RouteReason
  availability : Availability
  sourceRefs : List String
  sourceHash : String
  corporateActionsComplete : Bool
deriving DecidableEq

structure QueueEvidence extends QueueMarket where
  positions : List QueuePosition
deriving DecidableEq

/-! ## Phase plans -/

inductive Instruction
  | new (order : Reservation)
  | cancel (oldOrderId : String)
  | replace (oldOrderId newOrderId : String) (targetTotal : ℤ) (limitPrice : ℚ)
      (target_pos : 0 < targetTotal) (limitPrice_pos : 0 < limitPrice)

instance : DecidableEq Instruction
  | .new o, .new o' => decidable_of_iff (o = o') (by simp)
  | .cancel i, .cancel i' => decidable_of_iff (i = i') (by simp)
  | .replace i j t p _ _, .replace i' j' t' p' _ _ =>
      decidable_of_iff (i = i' ∧ j = j' ∧ t = t' ∧ p = p') (by simp)
  | .new _, .cancel _ | .new _, .replace .. | .cancel _, .new _ | .cancel _, .replace ..
  | .replace .., .new _ | .replace .., .cancel _ => isFalse (by simp)

structure StagePlan where
  planId : String
  instructions : List Instruction
deriving DecidableEq

structure MarketCursor where
  streamId : String
  afterSequence : ℤ
  sourceRef : String
deriving DecidableEq

structure MarketActionEvidence where
  market : AcceptanceEvidence
  cursor : Option MarketCursor
deriving DecidableEq

/-- The research session a plan comes from. `scopeActive` is what the phase
clock's `assert_scope` answers for it, at the call and again in the guard. -/
structure Session where
  phaseId : String
  actorId : String
  ownsAccount : Bool
  isChild : Bool
  scopeActive : Bool

end Ahunter.Sim
