import Ahunter.Sim.World
import Ahunter.Lib.Timeline

/-!
# Reading the account

The account is read in two ways. `balances` answers from the projection, or,
when it is asked for what a boundary could observe, from the last event that
had happened by the cutoff and was visible by the snapshot. A valuation takes
the last event that had happened by its cutoff.
-/

namespace Ahunter.Sim

open Ahunter.Lib

/-! ## Balances -/

/-- What is owned of one security. -/
structure Holding where
  total : ℤ
  sellable : ℤ
  frozen : ℤ
deriving DecidableEq

/-- The answer of `balances`. -/
structure Balances where
  cash : ℚ
  availableCash : ℚ
  frozenCash : ℚ
  withdrawableCash : ℚ
  securities : Dict String Holding
  receivables : Dict String Receivable
  payables : ℚ
  liabilities : ℚ
  feesAssessed : Dict String ℚ
  policyRef : String
deriving DecidableEq

/-- `_available_cash(state, at, withdrawal=True)` -/
def availableForWithdrawal (z : Zone) (s : AccountState) (at_ : Instant) : ℚ :=
  max 0 (cashIn (withdrawableCash z at_) s.cashLots - frozenCash s at_ - s.payables
    - s.liabilities)

def addHolding (z : Zone) (s : AccountState) (at_ : Instant)
    (held : Dict String Holding) (e : String × StockLot) : Dict String Holding :=
  let (lotId, lot) := e
  let item := (held.get? lot.security).getD ⟨0, 0, 0⟩
  let frozen := stockFrozen s.orders lotId
  held.set lot.security {
    total := item.total + lot.quantity
    sellable := item.sellable +
      if stockEligible z at_ lot then lot.quantity - frozen else 0
    frozen := item.frozen + frozen }

def balancesOf (z : Zone) (s : AccountState) (at_ : Instant) : Balances where
  cash := cashTotal s
  availableCash := Sim.availableCash z s at_
  frozenCash := Sim.frozenCash s at_
  withdrawableCash := availableForWithdrawal z s at_
  securities := s.stockLots.entries.foldl (addHolding z s at_) Dict.empty
  receivables := s.receivables
  payables := s.payables
  liabilities := s.liabilities
  feesAssessed := s.feesAssessed
  policyRef := "cash_equity_v1"

/-! ## Boundaries -/

def AccountEvent.observable (b : Boundary) (e : AccountEvent) : Bool :=
  e.simulatedAt ≤ b.eventCutoff && e.visibleAt ≤ b.snapshotAt

/-- The state `balances` answers from. -/
def World.readState (w : World) (observed : Bool) (b : Boundary) :
    Attempt AccountState :=
  if observed then do
    let e ← need (lastThat (AccountEvent.observable b) w.events) (accountUnavailable
      "account has no confirmed snapshot at the boundary")
    pure e.state
  else do
    let s ← w.state
    refuse (∃ t ∈ s.lastEventAt, t > b.eventCutoff) (accountUnavailable
      "current account cannot be read at an earlier event time")
    pure s

/-- `balances(at=…, observed=…, snapshot_at=…)` -/
def World.balances (spec : AccountSpec) (w : World) (at_ : Instant)
    (observed : Bool) (snapshotAt : Option Instant) : Attempt Balances := do
  let snapshot := snapshotAt.getD at_
  refuse (snapshot < at_)
    (invalidValue "account snapshot precedes its event cutoff")
  let s ← w.readState observed ⟨at_, snapshot⟩
  pure (balancesOf spec.zone s (if observed then snapshot else at_))

/-- `observe(boundary)`; `sameZone` says that the boundary's time zone is the
specification's. -/
def World.observe (spec : AccountSpec) (w : World) (b : Boundary)
    (sameZone : Bool) : Attempt Balances := do
  refuse (sameZone = false)
    (conflict "account observation timezone differs from the specification")
  w.balances spec b.eventCutoff true (some b.snapshotAt)

/-! ## Valuations -/

def valuationUnsupported (message : String) : Failure :=
  ⟨.valuationUnsupported, message⟩

/-- `_financial_state(cutoff)`: the event whose state is valued. -/
def World.financialState (w : World) (cutoff : Instant) : Attempt AccountEvent :=
  need (lastThat (fun e => e.simulatedAt ≤ cutoff) w.events) (valuationUnsupported
    "account has no financial state at the valuation event cutoff")

end Ahunter.Sim
