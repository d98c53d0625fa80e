import Ahunter.Sim.State

/-!
# Dividend tax: reserves and assessments

A taxable dividend leaves one obligation on each lot that was entitled to
it. While the lot is held, the highest rate its holding period can still meet
is kept in reserve; when shares of the lot are disposed of, their part of the
basis is taxed at the rate of that day. What is assessed before the dividend
has been paid out cannot be collected from it yet and stays payable.
-/

namespace Ahunter.Sim

open Ahunter.Lib

def corporateUnsupported (message : String) : Failure :=
  ⟨.corporateUnsupported, message⟩

def taxPolicyNotCovering : Failure :=
  corporateUnsupported "dividend tax policy does not cover this accounting date"

/-- A holding that ends on `disposedOn` is still inside the band. -/
def TaxBand.covers (b : TaxBand) (acquiredOn disposedOn : Date) : Bool :=
  match b.upToMonths with
  | none => true
  | some months => disposedOn ≤ addMonths acquiredOn months

/-- `policy.band_index(acquired_on, disposed_on)` -/
def DividendTaxPolicy.bandIndex (p : DividendTaxPolicy)
    (acquiredOn disposedOn : Date) : Attempt ℕ := do
  refuse (disposedOn < acquiredOn)
    (corporateUnsupported "dividend tax cannot precede acquisition")
  pure (p.bands.findIdx fun b => b.covers acquiredOn disposedOn)

/-- `policy.rate(acquired_on, disposed_on)` -/
def DividendTaxPolicy.rate (p : DividendTaxPolicy)
    (acquiredOn disposedOn : Date) : Attempt ℚ := do
  let index ← p.bandIndex acquiredOn disposedOn
  let band ← need p.bands[index]? (missingKey "bands")
  pure band.rate

/-- `policy.reserve_rate(acquired_on, as_of)`: the highest rate of the
bands a disposal from `asOf` on can still fall in. -/
def DividendTaxPolicy.reserveRate (p : DividendTaxPolicy)
    (acquiredOn asOf : Date) : Attempt ℚ := do
  let index ← p.bandIndex acquiredOn asOf
  pure ((p.bands.drop index).foldl (fun m b => max m b.rate) 0)

/-! ## The outstanding reserve -/

/-- One round of the loop of `refresh_tax_reserves`: the obligation with its
reserve renewed, and the total so far. -/
def refreshOne (z : Zone) (at_ : Instant) (acc : Dict String Obligation × ℚ)
    (e : String × Obligation) : Attempt (Dict String Obligation × ℚ) := do
  refuse (¬ e.2.policy.covers (z.date at_)) taxPolicyNotCovering
  let rate ← e.2.policy.reserveRate e.2.acquiredOn (z.date at_)
  let reserve := rounded (e.2.basisRemaining * rate)
  pure (acc.1.set e.1 { e.2 with reserved := reserve }, acc.2 + reserve)

/-- `refresh_tax_reserves(state, at)`: the state and the change of the
reserve. -/
def refreshTaxReserves (z : Zone) (s : AccountState) (at_ : Instant) :
    Attempt (AccountState × ℚ) := do
  let (obligations, total) ← walk (refreshOne z at_)
    (s.dividendObligations, 0) s.dividendObligations.entries
  let previous := s.dividendTaxReserve
  pure ({ s with
      dividendObligations := obligations
      liabilities := s.liabilities + total - previous
      dividendTaxReserve := total }, total - previous)

/-! ## Assessment at disposal -/

structure Assessment where
  state : AccountState
  collectible : ℚ
  assessed : ℚ
  entries : List Entry

/-- One round of the loop of `assess_disposal`, on one obligation. -/
def assessOne (z : Zone) (lotId : String) (quantity : ℤ) (at_ : Instant)
    (acc : Assessment) (e : String × Obligation) : Attempt Assessment :=
  let (key, o) := e
  if o.lotId ≠ lotId ∨ o.sharesRemaining ≤ 0 then pure acc
  else do
    refuse (quantity > o.sharesRemaining)
      (corporateUnsupported "tax entitlement units disagree with disposed shares")
    refuse (¬ o.policy.covers (z.date at_)) taxPolicyNotCovering
    let rate ← o.policy.rate o.acquiredOn (z.date at_)
    let basis := o.basisRemaining * quantity / o.sharesRemaining
    let exactTax := o.taxExact + basis * rate
    let cumulative := rounded exactTax
    let increment := cumulative - o.assessed
    let o' := { o with
      basisRemaining := o.basisRemaining - basis
      sharesRemaining := o.sharesRemaining - quantity
      taxExact := exactTax
      assessed := cumulative }
    let s := { acc.state with
      dividendObligations := acc.state.dividendObligations.set key o' }
    let action ← need (s.corporateActions.get? o.actionId) (missingKey o.actionId)
    if action.distributed then
      pure { state := s
             collectible := acc.collectible + increment
             assessed := acc.assessed + increment
             entries := acc.entries ++ [.dividendTaxAssessed increment key] }
    else
      pure { state := { s with
               corporateActions := s.corporateActions.set o.actionId
                 { action with deferredTax := action.deferredTax + increment }
               deferredDividendTax := s.deferredDividendTax + increment
               payables := s.payables + increment }
             collectible := acc.collectible
             assessed := acc.assessed + increment
             entries := acc.entries ++
               [.payables increment (some "dividend_tax_not_yet_distributed"),
                .dividendTaxAssessed increment key] }

/-- `assess_disposal(state, lot_id, quantity, at)`: the state, the tax that
is collectible at this sale and the entries. -/
def assessDisposal (z : Zone) (s : AccountState) (lotId : String)
    (quantity : ℤ) (at_ : Instant) : Attempt (AccountState × ℚ × List Entry) := do
  let a ← walk (assessOne z lotId quantity at_) ⟨s, 0, 0, []⟩
    s.dividendObligations.entries
  let fees := a.state.feesAssessed
  let taxed := (fees.get? "dividend_tax").getD 0 + a.assessed
  let state := if a.assessed = 0 then a.state else
    { a.state with feesAssessed := fees.set "dividend_tax" taxed }
  pure (state, a.collectible, a.entries)

end Ahunter.Sim
